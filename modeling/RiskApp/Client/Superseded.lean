import RiskApp.Client.Acknowledgement
import RiskApp.Client.PullEffects

namespace RiskApp.Client

open Lib Server

/-- One of the results gives the code to the row of a change that is still queued. -/
def takenBy (o : Outbox) (entity : Entity) (results : List ChangeResult) (code : Val) : Bool :=
  entity.scored && code ≠ .null && results.any fun r ↦
    r.entity = entity && o.any (·.changeId = r.changeId) &&
      (serverRecord r).any fun record ↦ normText (record.get .code) = code

theorem takenBy_null (o : Outbox) (entity : Entity) (results : List ChangeResult) :
    takenBy o entity results .null = false := by
  simp [takenBy]

theorem takenBy_cons (o : Outbox) (entity : Entity) (r : ChangeResult) (results : List ChangeResult)
    (code : Val) : takenBy o entity (r :: results) code =
      (takenBy o entity [r] code || takenBy o entity results code) := by
  simp only [takenBy, List.any_cons, List.any_nil, Bool.or_false, Bool.and_or_distrib_left]

theorem takenBy_congr {o o' : Outbox} (entity : Entity) {results : List ChangeResult}
    (h : ∀ r ∈ results, o'.any (·.changeId = r.changeId) = o.any (·.changeId = r.changeId))
    (code : Val) : takenBy o' entity results code = takenBy o entity results code := by
  induction results with
  | nil => rfl
  | cons r results ih =>
    rw [takenBy_cons, takenBy_cons o, ih fun r' hr ↦ h r' (List.mem_cons_of_mem r hr)]
    simp only [takenBy, List.any_cons, List.any_nil, h r List.mem_cons_self]

namespace Cache

variable {projectId : Uuid} {t t' : Cache} {k : EntityKey} {result : ChangeResult}

def losing (p : Val → Bool) (r : CachedRow) : CachedRow :=
  if p (r.columns .code) then clearCode r else r

/-- What the result of another entity does to an entity. -/
structure LeavesAlone (k : EntityKey) (results : List ChangeResult) (t t' : Cache) : Prop where
  entry : t'.outbox.entry k = t.outbox.entry k
  row : t'.row k = (t.row k).map (losing (takenBy t.outbox k.1 results))
  distinct : t'.outbox.Distinct
  ids : ∀ id, (∀ r ∈ results, r.changeId ≠ id) →
    t'.outbox.any (·.changeId = id) = t.outbox.any (·.changeId = id)

theorem losing_of_not {p : Val → Bool} (h : ∀ code, p code = false) (o : Option CachedRow) :
    o.map (losing p) = o := by
  have hid : losing p = id := funext fun r ↦ by rw [losing, h]; rfl
  rw [hid, Option.map_id]
  rfl

theorem any_deleteOutboxIds {o : Outbox} {changeId id : Uuid} (h : changeId ≠ id) :
    (o.deleteOutboxIds [changeId]).any (·.changeId = id) = o.any (·.changeId = id) := by
  rw [Bool.eq_iff_iff, List.any_eq_true, List.any_eq_true]
  constructor
  · rintro ⟨e, he, hid⟩
    exact ⟨e, (List.mem_filter.mp he).1, hid⟩
  · rintro ⟨e, he, hid⟩
    refine ⟨e, List.mem_filter.mpr ⟨he, ?_⟩, hid⟩
    have hne : e.changeId ≠ changeId := fun heq ↦ h (heq.symm.trans (of_decide_eq_true hid))
    simpa using hne

theorem any_update {o : Outbox} {p : Entry → Bool} {f : Entry → Entry} {id : Uuid}
    (hf : ∀ e, (f e).changeId = e.changeId) :
    (o.update p f).any (·.changeId = id) = o.any (·.changeId = id) := by
  rw [Outbox.update, List.any_map]
  congr 1
  funext e
  rw [Function.comp_apply]
  split
  · rw [hf]
  · rfl

theorem versionedRow_key (v : ℤ) (r : CachedRow) : (versionedRow v r).key = r.key := rfl

theorem advanceRow_key (version : Option ℤ) (code : Option Val) (r : CachedRow) :
    (advanceRow version code r).key = r.key := by
  cases code <;> rfl

theorem entry_deleteOutboxIds {o : Outbox} {sent : Entry} (hd : o.Distinct) (hsent : sent ∈ o)
    (hk : sent.key ≠ k) : (o.deleteOutboxIds [sent.changeId]).entry k = o.entry k := by
  refine Table.find_filter Entry.key k o fun e he hkey ↦ ?_
  have hne : e.changeId ≠ sent.changeId := fun hid ↦ hk (hd.eq_of_id he hsent hid ▸ hkey)
  simpa using hne

theorem row_takeRecord_other {k' : EntityKey} {record : Dict} {columns : Columns}
    (hne : k' ≠ k) (hbuilt : t.pulledColumns k'.1 record = some columns) :
    (t.takeRecord k' record columns).row k = (t.row k).map (losing fun code ↦
      k.1.scored && code ≠ .null && decide (k'.1 = k.1) &&
        decide (normText (record.get .code) = code)) := by
  rw [row_takeRecord, if_neg hne]
  cases hr : t.row k with
  | none => rfl
  | some r =>
    have hkey : r.key = k := Table.key_of_find CachedRow.key hr
    have hentity : r.entity = k.1 := congrArg Prod.fst hkey
    have hid : r.id = k.2 := congrArg Prod.snd hkey
    rw [Option.map_some, Option.map_some]
    refine congrArg some ?_
    unfold losing
    refine if_congr ?_ rfl rfl
    simp only [holdsCode, Bool.and_eq_true, decide_eq_true_eq, hentity, hid]
    constructor
    · rintro ⟨⟨⟨htable, hnull⟩, hcode⟩, -⟩
      obtain ⟨hscored, hnorm⟩ := pulledColumns_code hbuilt hnull
      exact ⟨⟨⟨htable ▸ hscored, hcode ▸ hnull⟩, htable.symm⟩, hnorm.symm.trans hcode.symm⟩
    · rintro ⟨⟨⟨hscored, hnull⟩, htable⟩, hnorm⟩
      have hcode : columns .code = normText (record.get .code) := by
        have hfields := pulledColumns_fields hbuilt
        rw [htable] at hfields
        cases hk : k.1 with
        | risk | opportunity =>
          rw [hk] at hfields
          exact (Option.some.inj (hfields .code (by decide))).symm
        | _ =>
          rw [hk] at hscored
          cases hscored
      refine ⟨⟨⟨htable.symm, ?_⟩, ?_⟩, fun hid' ↦ hne (Prod.ext htable hid'.symm)⟩
      · rw [hcode, hnorm]
        exact hnull
      · rw [hcode, hnorm]

theorem other_result (hd : t.outbox.Distinct) (ha : result.status = .accepted)
    (hsent : ∀ e ∈ t.outbox, e.changeId = result.changeId → e.key ≠ k)
    (hname : ∀ id, result.entityId = some id → (result.entity, id) ≠ k)
    (h : (acknowledgeResult projectId result).eval t = some ((), t')) :
    LeavesAlone k [result] t t' := by
  have hdistinct : t'.outbox.Distinct :=
    (LocalStore.acknowledgeResult_acknowledged hd (acknowledgeResult_store hd h)).distinct hd
  rcases acknowledgeResult_eval hd ha h with
    ⟨sent, hmem, hid, ⟨hentity, -⟩, hack⟩ | ⟨hgone, hadvance⟩
  · have hk := hsent sent hmem hid
    have hids : ∀ id, (∀ r ∈ [result], r.changeId ≠ id) →
        (t.outbox.deleteOutboxIds [sent.changeId]).any (·.changeId = id) =
          t.outbox.any (·.changeId = id) := fun id hne ↦
      any_deleteOutboxIds (hid ▸ hne result List.mem_cons_self)
    have hentry := entry_deleteOutboxIds hd hmem hk
    have hfree : serverRecord result = none →
        ∀ code, takenBy t.outbox k.1 [result] code = false := by
      intro hnone code
      simp [takenBy, hnone]
    cases hack with
    | @copied record columns state built =>
      refine ⟨hentry, ?_, hdistinct, hids⟩
      rw [row_takeRecord_other hk built]
      have hrow : (t.setOutbox (·.deleteOutboxIds [sent.changeId])).row k = t.row k := rfl
      rw [hrow]
      refine congrArg (Option.map · (t.row k)) (congrArg losing (funext fun code ↦ ?_))
      have hany : t.outbox.any (·.changeId = result.changeId) = true :=
        List.any_eq_true.mpr ⟨sent, hmem, decide_eq_true hid⟩
      have hcode : (ackRecord projectId sent.key record).get .code = record.get .code := rfl
      simp only [takenBy, List.any_cons, List.any_nil, Bool.or_false, hany, state, Option.any_some,
        hcode, hentity, Bool.and_assoc]
      rfl
    | versioned state =>
      refine ⟨hentry, ?_, hdistinct, hids⟩
      rw [losing_of_not (hfree state)]
      exact (row_updateRows_key _ sent.key (versionedRow_key _) k).trans (if_neg hk)
    | removed state =>
      refine ⟨hentry, ?_, hdistinct, hids⟩
      rw [losing_of_not (hfree state)]
      rfl
  · have hfree : ∀ code, takenBy t.outbox k.1 [result] code = false := by
      intro code
      have hany : t.outbox.any (·.changeId = result.changeId) = false := by
        rw [List.any_eq_false]
        intro e he hid
        exact hgone e he (of_decide_eq_true hid)
      simp [takenBy, hany]
    cases hadvance with
    | passed alone =>
      exact ⟨rfl, (losing_of_not hfree _).symm, hdistinct, fun _ _ ↦ rfl⟩
    | @advanced e mem entity entityId =>
      have hk : e.key ≠ k := fun hk ↦
        hname e.entityId entityId
          ((Prod.ext entity rfl : (result.entity, e.entityId) = e.key).trans hk)
      refine ⟨hd.entry_update_other mem hk (fun _ ↦ rfl), ?_, hdistinct, fun id _ ↦ ?_⟩
      · rw [losing_of_not hfree]
        exact (row_updateRows_key _ e.key (advanceRow_key _ _) k).trans (if_neg hk)
      · exact any_update fun _ ↦ rfl

theorem losing_losing {p q : Val → Bool} (hq : q .null = false) (o : Option CachedRow) :
    (o.map (losing p)).map (losing q) = o.map (losing fun code ↦ p code || q code) := by
  rw [Option.map_map]
  refine congrArg (Option.map · o) (funext fun r ↦ ?_)
  rw [Function.comp_apply]
  unfold losing
  cases hp : p (r.columns .code) with
  | true =>
    have hnull : (clearCode r).columns .code = .null := by simp [clearCode, CachedRow.setColumn]
    simp only [hp, if_true, hnull, hq, Bool.true_or, Bool.false_eq_true, if_false]
  | false => simp only [hp, Bool.false_or, Bool.false_eq_true, if_false]

theorem other_results {results : List ChangeResult} (hd : t.outbox.Distinct)
    (ha : ∀ r ∈ results, r.status = .accepted)
    (hnodup : (results.map ChangeResult.changeId).Nodup)
    (hsent : ∀ r ∈ results, ∀ e ∈ t.outbox, e.changeId = r.changeId → e.key ≠ k)
    (hname : ∀ r ∈ results, ∀ id, r.entityId = some id → (r.entity, id) ≠ k)
    (h : (results.forM (acknowledgeResult projectId)).eval t = some ((), t')) :
    LeavesAlone k results t t' := by
  induction results generalizing t with
  | nil =>
    obtain rfl : t = t' := congrArg Prod.snd (Option.some.inj h)
    refine ⟨rfl, (losing_of_not (fun code ↦ ?_) _).symm, hd, fun _ _ ↦ rfl⟩
    simp [takenBy]
  | cons r results ih =>
    obtain ⟨⟨⟩, t₁, hfirst, hrest⟩ := Work.bind_eval h
    obtain ⟨hnew, hnodup⟩ := List.nodup_cons.mp hnodup
    have hone := other_result hd (ha r List.mem_cons_self) (hsent r List.mem_cons_self)
      (hname r List.mem_cons_self) hfirst
    have hsent₁ : ∀ r' ∈ results, ∀ e ∈ t₁.outbox, e.changeId = r'.changeId → e.key ≠ k := by
      intro r' hr' e he hid hk
      have hentry := hone.distinct.entry_of_mem he
      rw [hk, hone.entry] at hentry
      exact hsent r' (List.mem_cons_of_mem r hr') e (Outbox.entry_some hentry).1 hid hk
    have hall := ih hone.distinct (fun r' hr' ↦ ha r' (List.mem_cons_of_mem r hr')) hnodup hsent₁
      (fun r' hr' ↦ hname r' (List.mem_cons_of_mem r hr')) hrest
    refine ⟨hall.entry.trans hone.entry, ?_, hall.distinct, fun id hid ↦ ?_⟩
    · rw [hall.row, hone.row, losing_losing (takenBy_null _ _ _)]
      refine congrArg (Option.map · (t.row k)) (congrArg losing (funext fun code ↦ ?_))
      rw [takenBy_cons t.outbox k.1 r results]
      refine congrArg (takenBy t.outbox k.1 [r] code || ·)
        (takenBy_congr k.1 (fun r' hr' ↦ ?_) code)
      refine hone.ids _ fun r₀ hr₀ hid ↦ ?_
      rw [List.mem_singleton.mp hr₀] at hid
      exact hnew (hid ▸ List.mem_map_of_mem hr')
    · rw [hall.ids id fun r' hr' ↦ hid r' (List.mem_cons_of_mem r hr')]
      exact hone.ids id fun r₀ hr₀ ↦ hid r₀ (List.mem_singleton.mp hr₀ ▸ List.mem_cons_self)

/-- The batch releases the code of a row that it names, and every code that it brings. -/
def releases (k : EntityKey) (results : List ChangeResult) (code : Val) : Bool :=
  k.1.scored && (k.2 ∈ acknowledgedIds k.1 results || code ∈ acknowledgedCodes k.1 results)

theorem release_step {entity : Entity} {results : List ChangeResult}
    (h : (if (acknowledgedRecords entity results).isEmpty then pure ()
      else changeRows (releasesCode entity results) clearCode : Work Cache Unit).eval t =
        some ((), t')) :
    t'.outbox = t.outbox ∧ (entity ≠ k.1 → t'.row k = t.row k) ∧
      (entity = k.1 → t'.row k = (t.row k).map (losing fun code ↦
        k.2 ∈ acknowledgedIds k.1 results || code ∈ acknowledgedCodes k.1 results)) := by
  split at h
  · rename_i hempty
    obtain rfl : t = t' := congrArg Prod.snd (Option.some.inj h)
    refine ⟨rfl, fun _ ↦ rfl, fun hk ↦ (losing_of_not (fun code ↦ ?_) _).symm⟩
    have hnone := List.isEmpty_iff.mp hempty
    rw [hk] at hnone
    simp [acknowledgedIds, acknowledgedCodes, hnone]
  · obtain rfl : _ = t' := congrArg Prod.snd (Option.some.inj h)
    have hkeeps : ∀ r : CachedRow, (clearCode r).key = r.key := fun _ ↦ rfl
    have hmap : (t.updateRows (releasesCode entity results) clearCode).row k =
        (t.row k).map (losing fun code ↦ decide (k.1 = entity) &&
          (k.2 ∈ acknowledgedIds entity results || code ∈ acknowledgedCodes entity results)) := by
      rw [row_updateRows t hkeeps]
      cases hr : t.row k with
      | none => rfl
      | some r =>
        have hkey : r.key = k := Table.key_of_find CachedRow.key hr
        have hentity : r.entity = k.1 := congrArg Prod.fst hkey
        have hid : r.id = k.2 := congrArg Prod.snd hkey
        rw [Option.map_some, Option.map_some]
        unfold losing releasesCode
        rw [hentity, hid]
    refine ⟨rfl, fun hk ↦ ?_, fun hk ↦ ?_⟩
    · exact hmap.trans (losing_of_not (fun _ ↦ by simp [Ne.symm hk]) _)
    · refine hmap.trans ?_
      rw [hk]
      simp only [decide_true, Bool.true_and]

theorem releaseScoredCodes_loop {results : List ChangeResult}
    (h : (releaseScoredCodes projectId results).eval t = some ((), t')) :
    ([Entity.risk, .opportunity].forM fun entity ↦
      if (acknowledgedRecords entity results).isEmpty then (pure () : Work Cache Unit)
      else changeRows (releasesCode entity results) clearCode).eval t = some ((), t') := by
  obtain ⟨⟨⟩, t₁, hchecks, h⟩ := Work.bind_eval h
  obtain ⟨⟨⟩, t₄, hloop, hcommit⟩ := Work.bind_eval h
  obtain rfl : t₄ = t' := congrArg Prod.snd (Option.some.inj hcommit)
  have hsame : t₁ = t := by
    refine Work.eval_forM_induction (P := fun _ u ↦ u = t)
      hchecks rfl fun _ entity u u' _ hu hs ↦ ?_
    rw [Work.eval_require] at hs
    split at hs
    · exact (congrArg Prod.snd (Option.some.inj hs)).symm.trans hu
    · cases hs
  rwa [hsame] at hloop

theorem releaseScoredCodes_row {results : List ChangeResult}
    (h : (releaseScoredCodes projectId results).eval t = some ((), t')) :
    t'.outbox = t.outbox ∧ t'.row k = (t.row k).map (losing (releases k results)) := by
  have hloop := releaseScoredCodes_loop h
  obtain ⟨⟨⟩, t₂, hrisk, hloop⟩ := Work.bind_eval hloop
  obtain ⟨⟨⟩, t₃, hopportunity, hloop⟩ := Work.bind_eval hloop
  obtain rfl : t₃ = t' := congrArg Prod.snd (Option.some.inj hloop)
  obtain ⟨hout₂, hother₂, hmine₂⟩ := release_step (k := k) hrisk
  obtain ⟨hout₃, hother₃, hmine₃⟩ := release_step (k := k) hopportunity
  refine ⟨hout₃.trans hout₂, ?_⟩
  unfold releases
  cases hk : k.1 with
  | risk =>
    rw [hother₃ (by rw [hk]; decide), hmine₂ hk.symm, hk]
    rfl
  | opportunity =>
    rw [hmine₃ hk.symm, hother₂ (by rw [hk]; decide), hk]
    rfl
  | _ =>
    rw [hother₃ (by rw [hk]; decide), hother₂ (by rw [hk]; decide)]
    exact (losing_of_not (fun _ ↦ rfl) _).symm

/-- The result of a change whose place a newer one has taken: it advances the newer one. -/
theorem result_advances {c c' : Cache} {e : Entry} (hd : c.outbox.Distinct)
    (ha : result.status = .accepted) (he : c.outbox.entry k = some e) (hq : e.queued = true)
    (hgone : ∀ e ∈ c.outbox, e.changeId ≠ result.changeId) (hentity : result.entity = k.1)
    (hentityId : result.entityId = some k.2)
    (h : (acknowledgeResult projectId result).eval c = some ((), c')) :
    c'.outbox = c.outbox.update (·.changeId = e.changeId) (Entry.advanced
        (LocalStore.advancedBase e.baseVersion (acknowledgedVersion result))
        (LocalStore.withServerCode k.1 e.record (serverRecord result))) ∧
      c'.row k = (c.row k).map (advanceRow (advancedVersion result) (followedCode k.1 result)) := by
  obtain ⟨hmem, rfl⟩ := Outbox.entry_some he
  rcases acknowledgeResult_eval hd ha h with ⟨sent, hsent, hid, -⟩ | ⟨-, hadvance⟩
  · exact absurd hid (hgone sent hsent)
  cases hadvance with
  | passed alone => exact absurd hentityId (alone e hmem hq hentity)
  | @advanced e' mem entity entityId =>
    obtain rfl : e = e' := by
      refine hd.eq_of_key hmem mem (Prod.ext (hentity.symm.trans entity) ?_)
      exact Option.some.inj (hentityId.symm.trans entityId)
    exact ⟨rfl, (row_updateRows_key _ e.key (advanceRow_key _ _) e.key).trans (if_pos rfl)⟩

/-- What an acknowledgement makes of a newer change of the entity `k` and of its row. -/
theorem replacement_acknowledged {c c' : Cache} {before after : List ChangeResult} {e : Entry}
    {r : CachedRow} (hd : c.outbox.Distinct)
    (ha : ∀ r' ∈ before ++ result :: after, r'.status = .accepted)
    (hnodup : ((before ++ result :: after).map ChangeResult.changeId).Nodup)
    (hsent : ∀ r' ∈ before ++ after, ∀ e ∈ c.outbox, e.changeId = r'.changeId → e.key ≠ k)
    (hname : ∀ r' ∈ before ++ after, ∀ id, r'.entityId = some id → (r'.entity, id) ≠ k)
    (he : c.outbox.entry k = some e) (hq : e.queued = true) (hr : c.row k = some r)
    (hgone : ∀ e ∈ c.outbox, e.changeId ≠ result.changeId) (hentity : result.entity = k.1)
    (hentityId : result.entityId = some k.2)
    (h : (acknowledgeAcceptedResults projectId (before ++ result :: after)).eval c =
      some ((), c')) :
    ∃ version, c'.outbox.entry k = some (e.advanced
        (LocalStore.advancedBase e.baseVersion (acknowledgedVersion result))
        (LocalStore.withServerCode k.1 e.record (serverRecord result))) ∧
      c'.row k = some (losing (takenBy c.outbox k.1 after) (advanceRow version
        (followedCode k.1 result) (losing (takenBy c.outbox k.1 before)
          (losing (releases k (before ++ result :: after)) r)))) := by
  rw [acknowledgeAcceptedResults, Work.eval_writeTransaction] at h
  obtain ⟨⟨⟩, c₁, hrelease, hloop⟩ := Work.bind_eval h
  obtain ⟨hout₁, hrow₁⟩ := releaseScoredCodes_row (k := k) hrelease
  obtain ⟨c₂, hbefore, hloop⟩ := Work.eval_forM_append hloop
  obtain ⟨⟨⟩, c₃, hmine, hafter⟩ := Work.bind_eval hloop
  rw [List.map_append, List.map_cons, List.nodup_append] at hnodup
  obtain ⟨hnodupBefore, hnodupRest, hapart⟩ := hnodup
  obtain ⟨hnew, hnodupAfter⟩ := List.nodup_cons.mp hnodupRest
  have hone := other_results (k := k) (hout₁ ▸ hd)
    (fun r' hr' ↦ ha r' (List.mem_append_left _ hr')) hnodupBefore
    (fun r' hr' ↦ hout₁ ▸ hsent r' (List.mem_append_left _ hr'))
    (fun r' hr' ↦ hname r' (List.mem_append_left _ hr')) hbefore
  have he₂ : c₂.outbox.entry k = some e := hone.entry.trans (hout₁ ▸ he)
  have hids₂ : ∀ id, (∀ r' ∈ before, r'.changeId ≠ id) →
      c₂.outbox.any (·.changeId = id) = c.outbox.any (·.changeId = id) :=
    fun id hid ↦ (hone.ids id hid).trans (by rw [hout₁])
  have hgone₂ : ∀ e' ∈ c₂.outbox, e'.changeId ≠ result.changeId := by
    have hnone : c.outbox.any (·.changeId = result.changeId) = false := by
      rw [List.any_eq_false]
      intro e' he' hid
      exact hgone e' he' (of_decide_eq_true hid)
    rw [← hids₂ _ fun r' hr' ↦ hapart _ (List.mem_map_of_mem hr') _ List.mem_cons_self,
      List.any_eq_false] at hnone
    intro e' he' hid
    exact hnone e' he' (decide_eq_true hid)
  obtain ⟨hout₃, hrow₃⟩ := result_advances hone.distinct (ha result (by simp)) he₂ hq hgone₂ hentity
    hentityId hmine
  generalize hadvanced : Entry.advanced (LocalStore.advancedBase e.baseVersion
    (acknowledgedVersion result)) (LocalStore.withServerCode k.1 e.record (serverRecord result)) =
    advance at hout₃ ⊢
  have hkeeps : ∀ e, (advance e).key = e.key ∧ (advance e).changeId = e.changeId := by
    intro e
    rw [← hadvanced]
    exact ⟨rfl, rfl⟩
  have hd₃ : c₃.outbox.Distinct :=
    hout₃ ▸ hone.distinct.update (fun e ↦ (hkeeps e).1) fun e ↦ (hkeeps e).2
  have he₃ : c₃.outbox.entry k = some (advance e) := by
    rw [hout₃]
    exact Outbox.entry_update_self (fun e ↦ (hkeeps e).1) he₂
  have hids₃ : ∀ id, (∀ r' ∈ before, r'.changeId ≠ id) →
      c₃.outbox.any (·.changeId = id) = c.outbox.any (·.changeId = id) := by
    intro id hid
    rw [hout₃]
    exact (any_update fun e ↦ (hkeeps e).2).trans (hids₂ id hid)
  have hlast := other_results (k := k) hd₃
    (fun r' hr' ↦ ha r' (List.mem_append_right _ (List.mem_cons_of_mem _ hr'))) hnodupAfter
    (fun r' hr' e' he' hid hk ↦ by
      have hentry := hd₃.entry_of_mem he'
      rw [hk, he₃] at hentry
      obtain rfl := Option.some.inj hentry
      obtain ⟨hmem, hkey⟩ := Outbox.entry_some he
      exact hsent r' (List.mem_append_right _ hr') e hmem ((hkeeps e).2.symm.trans hid) hkey)
    (fun r' hr' ↦ hname r' (List.mem_append_right _ hr')) hafter
  have htaken : takenBy c₃.outbox k.1 after = takenBy c.outbox k.1 after := by
    refine funext fun code ↦ takenBy_congr k.1 (fun r' hr' ↦ hids₃ _ fun r₀ hr₀ ↦ ?_) code
    exact hapart _ (List.mem_map_of_mem hr₀) _ (List.mem_cons_of_mem _ (List.mem_map_of_mem hr'))
  refine ⟨advancedVersion result, hlast.entry.trans he₃, ?_⟩
  rw [hlast.row, htaken, hrow₃, hone.row, hrow₁, hr, hout₁]
  rfl

end Cache

theorem normText_normText (v : Val) : normText (normText v) = normText v := by
  have htext : ∀ s : String, normText (normText (.str s)) = normText (.str s) := by
    intro s
    have hnorm : ∀ s : String, normText (.str s) = if Text.strip s.toList = [] then .null
        else .str (String.ofList (Text.strip s.toList)) := fun _ ↦ rfl
    rw [hnorm s]
    split
    · rfl
    · rename_i hfull
      rw [hnorm, String.toList_ofList, Text.strip_strip, if_neg hfull]
  cases v with
  | null => rfl
  | uuid u => rfl
  | time t => rfl
  | zoned t offset => rfl
  | str s => exact htext s
  | bool b => exact htext _
  | int n => exact htext _
  | other json => exact htext json

theorem takenBy_append (o : Outbox) (entity : Entity) (results results' : List ChangeResult)
    (code : Val) : takenBy o entity (results ++ results') code =
      (takenBy o entity results code || takenBy o entity results' code) := by
  simp only [takenBy, List.any_append, Bool.and_or_distrib_left]

theorem normText_of_taken {o : Outbox} {entity : Entity} {results : List ChangeResult} {code : Val}
    (h : takenBy o entity results code = true) : normText code = code ∧ code ≠ .null := by
  simp only [takenBy, Bool.and_eq_true, decide_eq_true_eq, List.any_eq_true] at h
  obtain ⟨⟨-, hnull⟩, r, -, -, hcode⟩ := h
  cases hrecord : serverRecord r with
  | none =>
    rw [hrecord] at hcode
    cases hcode
  | some record =>
    rw [hrecord] at hcode
    have hnorm : normText (record.get .code) = code := of_decide_eq_true hcode
    refine ⟨?_, hnull⟩
    rw [← hnorm]
    exact normText_normText _

/-- The user's code stays, or it is the one that was sent and follows the server. -/
def KeepsCode (sent : Entry) (result : ChangeResult) (v : Val) (saved : CachedRow) (e' : Entry)
    (r' : CachedRow) : Prop :=
  (e'.record .code = some v ∧ r'.columns .code = saved.columns .code) ∨
    sent.record .code = some v ∧ ∃ code, followedCode sent.entity result = some code ∧
      e'.record .code = some code ∧ r'.columns .code = code

/-- After the acknowledgement of `sent`, the entry `e` of the newer edit and the row it saved still
hold what the user entered; only the versions advance. -/
structure KeepsEdit (sent e : Entry) (newer : Edit) (saved : CachedRow) (result : ChangeResult)
    (e' : Entry) (r' : CachedRow) : Prop where
  entry : e' = e.advanced e'.baseVersion e'.record
  op : e'.op = newer.op
  base : e.baseVersion.getD 0 ≤ e'.baseVersion.getD 0
  record : ∀ a, a ≠ .code → e'.record a = newer.record a
  deleted : r'.isDeleted = saved.isDeleted
  dirty : r'.dirty = saved.dirty
  version : saved.version ≤ r'.version
  columns : ∀ a, a ≠ .code → r'.columns a = saved.columns a
  code : ∀ v, newer.record .code = some v → KeepsCode sent result v saved e' r'

/-- When the acknowledgement of `sent` leaves the code `v` of the newer change alone: the server
kept the code that was sent or has the new one, and the batch gives it to no other row. -/
def CodeSafe (sent : Entry) (o : Outbox) (results after : List ChangeResult) (result : ChangeResult)
    (v : Val) : Prop :=
  match serverRecord result with
  | none => takenBy o sent.entity results (normText v) = false ∧
      normText v ∉ Cache.acknowledgedCodes sent.entity results
  | some record => match record .code with
    | none => normText v = .null
    | some code => takenBy o sent.entity after code = false ∧
        (sent.record .code = some v ∨ v = code ∧ normText v = code)

namespace Cache

theorem losing_columns (p : Val → Bool) (r : CachedRow) {a : Attr} (ha : a ≠ .code) :
    (losing p r).columns a = r.columns a := by
  unfold losing
  split
  · exact Function.update_of_ne ha _ _
  · rfl

theorem losing_row (p : Val → Bool) (r : CachedRow) :
    (losing p r).toLocalRow = r.toLocalRow ∧ (losing p r).dirty = r.dirty := by
  unfold losing
  split <;> exact ⟨rfl, rfl⟩

theorem losing_code (p : Val → Bool) (r : CachedRow) : (losing p r).columns .code =
    if p (r.columns .code) then .null else r.columns .code := by
  unfold losing
  split
  · simp [clearCode, CachedRow.setColumn]
  · rfl

theorem advanceRow_columns (version : Option ℤ) (code : Option Val) (r : CachedRow) {a : Attr}
    (ha : a ≠ .code) : (advanceRow version code r).columns a = r.columns a := by
  cases code with
  | none => rfl
  | some code => exact Function.update_of_ne ha _ _

theorem advanceRow_dirty (version : Option ℤ) (code : Option Val) (r : CachedRow) :
    (advanceRow version code r).dirty = r.dirty := by
  cases code <;> rfl

theorem advanceRow_code (version : Option ℤ) (code : Option Val) (r : CachedRow) :
    (advanceRow version code r).columns .code = code.getD (r.columns .code) := by
  cases code with
  | none => rfl
  | some code => simp [advanceRow, CachedRow.setColumn]

end Cache

section Codes

variable {k : EntityKey} {o : Outbox} {before after : List ChangeResult} {result : ChangeResult}
  {saved r' : CachedRow} {sent e e' : Entry} {v : Val} {version : Option ℤ}

/-- The code of the row once the batch is acknowledged. -/
theorem acknowledged_code (hr' : r' = Cache.losing (takenBy o k.1 after)
      (Cache.advanceRow version (followedCode k.1 result) (Cache.losing (takenBy o k.1 before)
        (Cache.losing (Cache.releases k (before ++ result :: after)) saved)))) :
    r'.columns .code = match followedCode k.1 result with
      | some code => if takenBy o k.1 after code then .null else code
      | none => if Cache.releases k (before ++ result :: after) (saved.columns .code) ||
          takenBy o k.1 before (saved.columns .code) || takenBy o k.1 after (saved.columns .code)
        then .null else saved.columns .code := by
  rw [hr', Cache.losing_code, Cache.advanceRow_code, Cache.losing_code, Cache.losing_code]
  cases followedCode k.1 result with
  | some code => rfl
  | none =>
    simp only [Option.getD_none]
    cases hrel : Cache.releases k (before ++ result :: after) (saved.columns .code) with
    | true => simp [takenBy_null]
    | false =>
      cases hbefore : takenBy o k.1 before (saved.columns .code) with
      | true => simp [hbefore, takenBy_null]
      | false => simp [hbefore]

theorem keepsCode_iff (hs : k.1.scored = true) (hsent : sent.entity = k.1)
    (hcode : e.record .code = some v) (hsaved : saved.columns .code = normText v)
    (hnamed : serverRecord result ≠ none → k.2 ∈ Cache.acknowledgedIds k.1
      (before ++ result :: after))
    (hothers : serverRecord result = none → k.2 ∉ Cache.acknowledgedIds k.1
      (before ++ result :: after))
    (he' : e'.record = LocalStore.withServerCode k.1 e.record (serverRecord result))
    (hr' : r' = Cache.losing (takenBy o k.1 after)
      (Cache.advanceRow version (followedCode k.1 result) (Cache.losing (takenBy o k.1 before)
        (Cache.losing (Cache.releases k (before ++ result :: after)) saved)))) :
    KeepsCode sent result v saved e' r' ↔
      CodeSafe sent o (before ++ result :: after) after result v := by
  have hrow := acknowledged_code hr'
  rw [withServerCode_eq] at he'
  unfold KeepsCode CodeSafe
  rw [hsent, hrow, hsaved, he']
  cases hrecord : serverRecord result with
  | none =>
    have hfollow : followedCode k.1 result = none := by
      rw [followedCode, hrecord]
      split <;> rfl
    have hmine : takenBy o k.1 [result] (normText v) = false := by simp [takenBy, hrecord]
    have hids := hothers hrecord
    rw [hfollow, takenBy_append, takenBy_cons, hmine, Bool.false_or]
    simp only [hcode, true_and, reduceCtorEq, false_and, exists_false, and_false, or_false,
      Cache.releases, hs, Bool.true_and, hids, decide_false, Bool.false_or]
    constructor
    · intro h
      by_cases hnull : normText v = .null
      · rw [hnull, takenBy_null, takenBy_null]
        refine ⟨rfl, fun hin ↦ ?_⟩
        simp [Cache.acknowledgedCodes] at hin
      · split at h
        · exact absurd h.symm hnull
        · rename_i hfree
          simp only [Bool.or_eq_true, decide_eq_true_eq, not_or, Bool.not_eq_true] at hfree
          exact ⟨by rw [hfree.1.2, hfree.2]; rfl, hfree.1.1⟩
    · rintro ⟨htaken, hin⟩
      simp only [Bool.or_eq_false_iff] at htaken
      rw [if_neg]
      simp [htaken.1, htaken.2, hin]
  | some record =>
    cases hserver : record .code with
    | none =>
      have hfollow : followedCode k.1 result = none := by
        rw [followedCode, hrecord, if_pos hs]
        exact hserver
      have hids := hnamed (by simp [hrecord])
      rw [hfollow]
      dsimp only
      rw [hserver]
      simp only [hcode, true_and, reduceCtorEq, false_and, exists_false, and_false, or_false,
        Cache.releases, hs, Bool.true_and, hids, decide_true, Bool.true_or, if_true]
      exact eq_comm
    | some code =>
      have hfollow : followedCode k.1 result = some code := by
        rw [followedCode, hrecord, if_pos hs]
        exact hserver
      rw [hfollow]
      dsimp only
      rw [hserver]
      have hset : (e.record.set .code code) .code = some code := Dict.set_same _ _ _
      simp only [hset, Option.some.injEq]
      cases htaken : takenBy o k.1 after code with
      | true =>
        obtain ⟨hnorm, hnull⟩ := normText_of_taken htaken
        simp only [if_true, Bool.true_eq_false, false_and, iff_false, not_or, not_and]
        refine ⟨fun hv hn ↦ ?_, fun _ ⟨code', hc, _, hn⟩ ↦ ?_⟩
        · rw [← hv, hnorm] at hn
          exact hnull hn.symm
        · exact hnull (hc.trans hn.symm)
      | false =>
        simp only [Bool.false_eq_true, if_false, true_and]
        constructor
        · rintro (⟨hv, hn⟩ | ⟨hsame, -⟩)
          · exact Or.inr ⟨hv.symm, hn.symm⟩
          · exact Or.inl hsame
        · rintro (hsame | ⟨hv, hn⟩)
          · exact Or.inr ⟨hsame, code, rfl, rfl, rfl⟩
          · exact Or.inl ⟨hv.symm, hn.symm⟩

end Codes

theorem advancedBase_le (base version : Option ℤ) :
    base.getD 0 ≤ (LocalStore.advancedBase base version).getD 0 := by
  unfold LocalStore.advancedBase
  dsimp only
  split
  · rw [Option.getD_none]
    omega
  · rw [Option.getD_some]
    omega

namespace Command

variable {c c' : Cache} {cmd : Command} {t : LocalStore.Stamp}

theorem saved_code {saved : CachedRow} {v : Val} (hw : cmd.wired = true)
    (hsaved : cmd.savedRow c t.now = some saved) (h : (cmd.edit c t.now).record .code = some v) :
    cmd.key.1.scored = true ∧ saved.columns .code = normText v := by
  have hscored : ∀ {record : Dict} {columns : Columns} {id : Uuid},
      savedScored record t.now = some columns → scoredRecord id record .code = some v →
      columns .code = normText v := by
    intro record columns id hcolumns hcode
    obtain ⟨m, hm, hcolumns⟩ := Option.bind_eq_some_iff.mp hcolumns
    obtain ⟨probability, -, hcolumns⟩ := Option.bind_eq_some_iff.mp hcolumns
    obtain ⟨impact, -, hcolumns⟩ := Option.bind_eq_some_iff.mp hcolumns
    obtain rfl := Option.some.inj hcolumns
    unfold normScoredMeta at hm
    split at hm
    · obtain rfl := Option.some.inj hm
      have hrecord : record .code = some v := hcode
      have hget : record.get .code = v := by rw [Dict.get, hrecord]; rfl
      exact congrArg normText hget
    · cases hm
  cases cmd with
  | createScored entity entityId form nextCode =>
    obtain ⟨columns, hcolumns, rfl⟩ := Option.map_eq_some_iff.mp hsaved
    exact ⟨hw, hscored hcolumns h⟩
  | updateScored entity entityId form nextCode baseVersion =>
    obtain ⟨r, -, hsaved⟩ := Option.bind_eq_some_iff.mp hsaved
    obtain ⟨columns, hcolumns, hsaved⟩ := Option.bind_eq_some_iff.mp hsaved
    obtain rfl := Option.some.inj hsaved
    exact ⟨hw, hscored hcolumns h⟩
  | upsertMyAssessment assessmentId form assessorUserId version =>
    have hnone : form.record assessmentId .code = none := by
      unfold AssessmentForm.record
      by_cases hrisk : form.itemType = .risk <;> simp [hrisk, Dict.ofList, Dict.set, Dict.empty]
    cases hnone.symm.trans h
  | _ => cases h

theorem work_after_nil (projectId : Uuid) (hw : cmd.wired = true)
    (h : (cmd.work t).eval c = some ((), c')) :
    ((Operation.command cmd t).work projectId).after [] c = c' := by
  have hwork : (Operation.command cmd t).work projectId = cmd.work t := if_pos hw
  have hblock : ∀ w : Work Cache Unit, w.eval c = some ((), c') →
      w.writeTransaction.after [] c = c' := fun w hw ↦ (Work.writeTransaction_completed hw).2
  rw [hwork]
  cases cmd <;> exact hblock _ h

end Command

theorem Cache.acknowledge_returned {projectId : Uuid} {results : List ChangeResult}
    {faults : List Fate} {c : Cache}
    (h : (acknowledgeAcceptedResults projectId results).returned faults c = true) :
    (acknowledgeAcceptedResults projectId results).eval c =
      some ((), (acknowledgeAcceptedResults projectId results).after faults c) := by
  obtain ⟨⟨⟩, hdone⟩ := Work.writeTransaction_returned h
  exact hdone

theorem Cache.Flying.start {c : Cache} {limit : ℕ} {now : Time} {sent : Entry} (hc : c.Sound)
    (hsent : sent ∈ c.outbox.getPendingChanges limit now) :
    Flying (c.outbox.getPendingChanges limit now) sent.key c := by
  refine ⟨fun e he e' he' hid ↦ ?_, fun e he ↦ ?_⟩
  · rw [hc.distinct.eq_of_id he (Device.mem_getPendingChanges he').1 hid]
  · obtain ⟨hmem, hready⟩ := Device.mem_getPendingChanges hsent
    obtain ⟨he, hkey⟩ := Outbox.entry_some he
    obtain rfl := hc.distinct.eq_of_key he hmem hkey
    exact Device.queued_of_ready hready

theorem Cache.Flight.command {projectId : Uuid} {batch : Outbox} {c b c₁ : Cache} {cmd : Command}
    {t : LocalStore.Stamp} (h : Flight projectId batch c b) (hwired : cmd.wired = true)
    (hfresh : ∀ e ∈ b.outbox ++ batch, e.changeId ≠ t.changeId)
    (hedit : (cmd.work t).eval b = some ((), c₁)) : Flight projectId batch c c₁ := by
  refine h.tail ⟨.command cmd t, [], trivial, fun id hdraw e' he' ↦ ?_, fun id hdraw e' he' ↦ ?_,
    (Command.work_after_nil projectId hwired hedit).symm⟩
  · obtain rfl := Option.some.inj hdraw
    exact hfresh e' (List.mem_append_left _ he')
  · obtain rfl := Option.some.inj hdraw
    exact hfresh e' (List.mem_append_right _ he')

/-- No entry of the batch has the id of `sent` once another change of its entity is queued. -/
theorem Cache.Flying.replaced {batch : Outbox} {c : Cache} {sent e : Entry}
    (h : Flying batch sent.key c) (hd : c.outbox.Distinct) (hsent : sent ∈ batch)
    (he : c.outbox.entry sent.key = some e) (hnewer : e.changeId ≠ sent.changeId) :
    ∀ e' ∈ c.outbox, e'.changeId ≠ sent.changeId := by
  intro e' he' hid
  have hentry := hd.entry_of_mem he'
  rw [h.ids e' he' sent hsent hid, he] at hentry
  obtain rfl := Option.some.inj hentry
  exact hnewer hid

/-- The entry and the row of an edit whose entry is queued. -/
theorem Command.work_saved {c c' : Cache} {cmd : Command} {t : LocalStore.Stamp} {e : Entry}
    {saved : CachedRow} (hwired : cmd.wired = true) (hd : c.outbox.Distinct)
    (h : (cmd.work t).eval c = some ((), c')) (he : c'.outbox.entry cmd.key = some e)
    (hsaved : cmd.savedRow c t.now = some saved) :
    c'.row cmd.key = some saved ∧ e.op = (cmd.edit c t.now).op ∧
      e.record = (cmd.edit c t.now).record := by
  rcases ((Command.work_done hwired h).reflected hd).both with
    ⟨r, e', hr, hrow, hentry, hop, hrecord⟩ | ⟨-, hnone, -⟩
  · obtain rfl : saved = r := Option.some.inj (hsaved.symm.trans hr)
    obtain rfl : e = e' := Option.some.inj (he.symm.trans hentry)
    exact ⟨hrow, hop, hrecord⟩
  · cases hnone.symm.trans he

/-- The accepted results of a batch: one of them answers `sent`, each of the others answers an
entry of another entity. -/
structure AnsweredBatch (batch : Outbox) (sent : Entry) (before after : List ChangeResult)
    (result : ChangeResult) : Prop where
  accepted : ∀ r ∈ before ++ result :: after, r.status = .accepted
  nodup : ((before ++ result :: after).map ChangeResult.changeId).Nodup
  entity : result.entity = sent.entity
  others : ∀ r ∈ before ++ after, ∃ e ∈ batch, e.changeId = r.changeId ∧ e.key ≠ sent.key ∧
    r.entity = e.entity ∧ (∀ id, r.entityId = some id → id = e.entityId) ∧
      ∀ record id, serverRecord r = some record → recordId record = some id → id = e.entityId

theorem changeId_ne_of_nodup {before after : List ChangeResult} {result : ChangeResult}
    (h : ((before ++ result :: after).map ChangeResult.changeId).Nodup) :
    ∀ r ∈ before ++ after, r.changeId ≠ result.changeId := by
  rw [List.map_append, List.map_cons, List.nodup_append] at h
  obtain ⟨-, hrest, hapart⟩ := h
  intro r hr
  rcases List.mem_append.mp hr with hr | hr
  · exact hapart _ (List.mem_map_of_mem hr) _ List.mem_cons_self
  · exact fun heq ↦ (List.nodup_cons.mp hrest).1 (heq ▸ List.mem_map_of_mem hr)

theorem mem_around {before after : List ChangeResult} {result r : ChangeResult}
    (h : r ∈ before ++ after) : r ∈ before ++ result :: after := by
  rcases List.mem_append.mp h with h | h
  · exact List.mem_append_left _ h
  · exact List.mem_append_right _ (List.mem_cons_of_mem _ h)

namespace AnsweredBatch

variable {batch : Outbox} {sent : Entry} {before after : List ChangeResult} {result : ChangeResult}

theorem of_validated {projectId : Uuid} {o : Outbox} {raw results : List ChangeResult}
    (hd : o.Distinct) (hnamed : o.Named) (hbatch : ∀ e ∈ batch, e ∈ o) (hsent : sent ∈ batch)
    (hraw : validatedPushResults projectId batch raw = some results)
    (hresults : acknowledged results = before ++ result :: after)
    (hid : result.changeId = sent.changeId) : AnsweredBatch batch sent before after result := by
  obtain ⟨hnodup, hmatch⟩ := validatedPushResults_some hraw
  have hsub : ∀ r ∈ before ++ result :: after, r ∈ results ∧ r.status = .accepted := by
    intro r hr
    rw [← hresults] at hr
    obtain ⟨hin, hp⟩ := List.mem_filter.mp hr
    simp only [Bool.and_eq_true, decide_eq_true_eq] at hp
    exact ⟨hin, hp.1⟩
  have hids : ((before ++ result :: after).map ChangeResult.changeId).Nodup := by
    rw [← hresults]
    exact hnodup.sublist (List.filter_sublist.map _)
  refine ⟨fun r hr ↦ (hsub r hr).2, hids, ?_, fun r hr ↦ ?_⟩
  · obtain ⟨e, he, hide, hm⟩ := hmatch result (hsub result (by simp)).1
    have hsame := hd.eq_of_id (hbatch e he) (hbatch sent hsent) (hide.trans hid)
    exact hsame ▸ (resultMatchesChange_names (hnamed e (hbatch e he)) hm).1
  · obtain ⟨e, he, hide, hm⟩ := hmatch r (hsub r (mem_around hr)).1
    refine ⟨e, he, hide, fun hk ↦ ?_, resultMatchesChange_names (hnamed e (hbatch e he)) hm⟩
    have hsame := hd.eq_of_key (hbatch e he) (hbatch sent hsent) hk
    exact changeId_ne_of_nodup hids r hr
      (hide.symm.trans ((congrArg Entry.changeId hsame).trans hid.symm))

variable (h : AnsweredBatch batch sent before after result)

include h

theorem apart {c : Cache} (hflying : Cache.Flying batch sent.key c) :
    ∀ r ∈ before ++ after, ∀ e ∈ c.outbox, e.changeId = r.changeId → e.key ≠ sent.key := by
  intro r hr e he hid
  obtain ⟨e', he', hid', hk, -⟩ := h.others r hr
  rw [hflying.ids e he e' he' (hid.trans hid'.symm)]
  exact hk

theorem elsewhere : ∀ r ∈ before ++ after, ∀ id, r.entityId = some id →
    (r.entity, id) ≠ sent.key := by
  intro r hr id hname hk
  obtain ⟨e, -, -, hne, hentity, hid, -⟩ := h.others r hr
  refine hne ?_
  rw [← hk, hentity, hid id hname]
  rfl

theorem mem_acknowledgedIds (hname : result.entityId = some sent.entityId)
    (hrecord : serverRecord result ≠ none) :
    sent.entityId ∈ Cache.acknowledgedIds sent.entity (before ++ result :: after) := by
  obtain ⟨record, hr⟩ := Option.ne_none_iff_exists'.mp hrecord
  refine List.mem_filterMap.mpr ⟨(result, record), List.mem_filterMap.mpr ⟨result, by simp, ?_⟩, ?_⟩
  · rw [if_pos ⟨h.entity, h.accepted result (by simp)⟩, hr]
    rfl
  · rw [hname]
    rfl

theorem notMem_acknowledgedIds (hrecord : serverRecord result = none) :
    sent.entityId ∉ Cache.acknowledgedIds sent.entity (before ++ result :: after) := by
  intro hin
  obtain ⟨⟨r', record⟩, hin, hid⟩ := List.mem_filterMap.mp hin
  obtain ⟨r, hr, hpair⟩ := List.mem_filterMap.mp hin
  split at hpair
  · rename_i hacc
    obtain ⟨record', hrecord', hpair⟩ := Option.map_eq_some_iff.mp hpair
    obtain ⟨rfl, rfl⟩ := Prod.mk.inj hpair
    have hother : r ∈ before ++ after := by
      rcases List.mem_append.mp hr with hr | hr
      · exact List.mem_append_left _ hr
      · rcases List.mem_cons.mp hr with rfl | hr
        · cases hrecord.symm.trans hrecord'
        · exact List.mem_append_right _ hr
    obtain ⟨e, -, -, hk, hentity, hname, hnames⟩ := h.others r hother
    have hentityId : sent.entityId = e.entityId := by
      cases hn : r.entityId with
      | some id =>
        rw [hn] at hid
        exact (Option.some.inj hid).symm.trans (hname id hn)
      | none =>
        rw [hn] at hid
        exact hnames record' _ hrecord' hid
    exact hk (Prod.ext (hentity.symm.trans hacc.1) hentityId.symm)
  · cases hpair

end AnsweredBatch

/-- Whatever becomes of the code, the rest of the newer edit stays. -/
theorem keepsEdit_of_code {sent e e' : Entry} {newer : Edit} {saved r' : CachedRow}
    {result : ChangeResult} {k : EntityKey} {base version : Option ℤ} {server : Option Dict}
    {code : Option Val} {p q p' : Val → Bool} (hop : e.op = newer.op)
    (hrecord : e.record = newer.record)
    (he' : e' = e.advanced (LocalStore.advancedBase e.baseVersion base)
      (LocalStore.withServerCode k.1 e.record server))
    (hr' : r' = Cache.losing p (Cache.advanceRow version code (Cache.losing q
      (Cache.losing p' saved))))
    (hcode : ∀ v, newer.record .code = some v → KeepsCode sent result v saved e' r') :
    KeepsEdit sent e newer saved result e' r' := by
  have hview : r'.toLocalRow =
      { saved.toLocalRow with version := version.elim saved.version (max saved.version) } := by
    rw [hr', (Cache.losing_row _ _).1, Cache.advanceRow_view, (Cache.losing_row _ _).1,
      (Cache.losing_row _ _).1]
  have hdeleted := congrArg LocalRow.isDeleted hview
  refine ⟨he' ▸ rfl, he' ▸ hop, ?_, fun a ha ↦ ?_, hdeleted, ?_, ?_, fun a ha ↦ ?_, hcode⟩
  · rw [he']
    exact advancedBase_le _ _
  · rw [he', ← hrecord]
    exact LocalStore.withServerCode_of_ne _ _ _ ha
  · rw [hr', (Cache.losing_row _ _).2, Cache.advanceRow_dirty, (Cache.losing_row _ _).2,
      (Cache.losing_row _ _).2]
  · rw [congrArg LocalRow.version hview]
    cases version with
    | none => exact le_rfl
    | some v => exact le_max_left _ _
  · rw [hr', Cache.losing_columns _ _ ha, Cache.advanceRow_columns _ _ _ ha,
      Cache.losing_columns _ _ ha, Cache.losing_columns _ _ ha]

/-- A user's change `sent` is on its way when a newer one takes its place; then its answer
arrives. The newer change, its row included, loses nothing exactly when its code is safe. -/
theorem newer_edit_kept_iff {projectId : Uuid} {c b c₁ : Cache} {limit : ℕ} {now : Time}
    {sent e : Entry} {cmd : Command} {t : LocalStore.Stamp} {saved : CachedRow}
    {raw results before after : List ChangeResult} {result : ChangeResult} {faults : List Fate}
    (hc : Cache.Reaches projectId {} c) (hsent : sent ∈ c.outbox.getPendingChanges limit now)
    (hflight : Cache.Flight projectId (c.outbox.getPendingChanges limit now) c b)
    (hkey : cmd.key = sent.key) (hwired : cmd.wired = true)
    (hfresh : ∀ e ∈ b.outbox ++ c.outbox.getPendingChanges limit now, e.changeId ≠ t.changeId)
    (hedit : (cmd.work t).eval b = some ((), c₁))
    (he : c₁.outbox.entry sent.key = some e) (hnewer : e.changeId ≠ sent.changeId)
    (hsaved : cmd.savedRow b t.now = some saved)
    (hraw : validatedPushResults projectId (c.outbox.getPendingChanges limit now) raw =
      some results)
    (hresults : acknowledged results = before ++ result :: after)
    (hid : result.changeId = sent.changeId) (hname : result.entityId = some sent.entityId)
    (hdone : (Cache.acknowledgeAcceptedResults projectId (acknowledged results)).returned faults
      c₁ = true) :
    (∃ e' r', ((Cache.acknowledgeAcceptedResults projectId (acknowledged results)).after faults
        c₁).outbox.entry sent.key = some e' ∧
      ((Cache.acknowledgeAcceptedResults projectId (acknowledged results)).after faults
        c₁).row sent.key = some r' ∧ KeepsEdit sent e (cmd.edit b t.now) saved result e' r') ↔
    ∀ v, (cmd.edit b t.now).record .code = some v →
      CodeSafe sent c₁.outbox (acknowledged results) after result v := by
  have hsound := hc.sound Cache.sound_empty
  have hnamed := hc.named Cache.sound_empty fun e he ↦ absurd he List.not_mem_nil
  have hsoundb := (Cache.Flight.reaches hflight).sound hsound
  have hflight₁ := hflight.command hwired hfresh hedit
  have hd₁ := ((Cache.Flight.reaches hflight₁).sound hsound).distinct
  have hflying := Cache.Flight.flying hflight₁ hsound (.start hsound hsent)
  have hanswered : AnsweredBatch _ sent before after result :=
    .of_validated hsound.distinct hnamed (fun e he ↦ (Device.mem_getPendingChanges he).1) hsent hraw
      hresults hid
  -- the entry and the row are those of the newer edit
  obtain ⟨hrow, hop, hrecord⟩ := Command.work_saved hwired hsoundb.distinct hedit (hkey ▸ he) hsaved
  rw [hkey] at hrow
  have heval := Cache.acknowledge_returned hdone
  generalize (Cache.acknowledgeAcceptedResults projectId (acknowledged results)).after faults c₁ =
    c₂ at heval ⊢
  rw [hresults] at heval ⊢
  obtain ⟨version, hentry', hrow'⟩ := Cache.replacement_acknowledged (k := sent.key) hd₁
    hanswered.accepted hanswered.nodup (hanswered.apart hflying) hanswered.elsewhere he
    (hflying.queued e he) hrow (hid ▸ hflying.replaced hd₁ hsent he hnewer) hanswered.entity hname
    heval
  generalize he' : e.advanced _ _ = e' at hentry'
  generalize hr' : Cache.losing _ _ = r' at hrow'
  have hcode : ∀ v, (cmd.edit b t.now).record .code = some v →
      (KeepsCode sent result v saved e' r' ↔
        CodeSafe sent c₁.outbox (before ++ result :: after) after result v) := by
    intro v hv
    obtain ⟨hs, hcode⟩ := Command.saved_code hwired hsaved hv
    rw [hkey] at hs
    exact keepsCode_iff (k := sent.key) hs rfl (hrecord.symm ▸ hv) hcode
      (hanswered.mem_acknowledgedIds hname) hanswered.notMem_acknowledgedIds
      (congrArg Entry.record he'.symm) hr'.symm
  constructor
  · rintro ⟨e₂, r₂, he₂, hr₂, hkeeps⟩ v hv
    obtain rfl : e' = e₂ := Option.some.inj (hentry'.symm.trans he₂)
    obtain rfl : r' = r₂ := Option.some.inj (hrow'.symm.trans hr₂)
    exact (hcode v hv).mp (hkeeps.code v hv)
  · intro hsafe
    exact ⟨e', r', hentry', hrow', keepsEdit_of_code hop hrecord he'.symm hr'.symm
      fun v hv ↦ (hcode v hv).mpr (hsafe v hv)⟩

section Sample

def delayForm (title code : String) : ScoredForm :=
  ⟨.str title, 2, 3, .ofList [(.code, .str code)]⟩

def createdDelay : Cache :=
  ((Operation.command (.createScored .risk 7 (delayForm "Delay" "R-001") .null) ⟨1, 10⟩).work
    1).after [] {}

def renamedDelay (title code : String) : Command :=
  .updateScored .risk 7 (delayForm title code) .null none

def editedDelay (title code : String) : Cache :=
  ((Operation.command (renamedDelay title code) ⟨2, 30⟩).work 1).after [] createdDelay

def delayAnswer : ChangeResult where
  changeId := 1
  status := .accepted
  replayed := false
  entity := .risk
  op := .upsert
  entityId := some 7
  body := { serverVersion := some (some 1), serverRecord := some (some (.ofList
    [(.id, .uuid 7), (.projectId, .uuid 1), (.code, .str "R-001"), (.version, .int 1)])) }

def answeredDelay (title code : String) : Cache :=
  (Cache.acknowledgeAcceptedResults 1 (acknowledged [delayAnswer])).after []
    (editedDelay title code)

/-- The user gives the risk the code R-009 while it is being created; the answer puts R-001 back,
in the queued record and in the row. -/
theorem newer_code_lost :
    ((editedDelay "Delay" "R-009").outbox.entry (.risk, 7)).map (·.record .code) =
      some (some (.str "R-009")) ∧
    ((editedDelay "Delay" "R-009").row (.risk, 7)).map (·.columns .code) = some (.str "R-009") ∧
    ((answeredDelay "Delay" "R-009").outbox.entry (.risk, 7)).map (·.record .code) =
      some (some (.str "R-001")) ∧
    ((answeredDelay "Delay" "R-009").row (.risk, 7)).map (·.columns .code) =
      some (.str "R-001") := by
  decide

theorem createdDelay_reached : Cache.Reaches 1 {} createdDelay :=
  .single ⟨_, [], fun _ _ _ he ↦ absurd he List.not_mem_nil, rfl⟩

def sentDelay : Entry :=
  (LocalStore.draft (.risk, 7) .upsert none
    (scoredRecord 7 ((delayForm "Delay" "R-001").createRecord 7 .null 10)) ⟨1, 10⟩).entry none

/-- A new title survives the answer. -/
theorem newer_edit_kept_iff_sample : ∃ e saved e' r', e.changeId = 2 ∧
    (answeredDelay "Late delivery" "R-001").outbox.entry (.risk, 7) = some e' ∧
    (answeredDelay "Late delivery" "R-001").row (.risk, 7) = some r' ∧
    KeepsEdit sentDelay e ((renamedDelay "Late delivery" "R-001").edit createdDelay 30) saved
      delayAnswer e' r' := by
  have hbatch : createdDelay.outbox.getPendingChanges 100 20 = [sentDelay] := rfl
  obtain ⟨e, he⟩ : ∃ e, (editedDelay "Late delivery" "R-001").outbox.entry (.risk, 7) = some e :=
    ⟨_, rfl⟩
  have hid : some e.changeId = some 2 := by
    rw [← Option.map_some (f := Entry.changeId), ← he]
    rfl
  obtain ⟨saved, hsaved⟩ : ∃ saved,
      (renamedDelay "Late delivery" "R-001").savedRow createdDelay 30 = some saved := ⟨_, rfl⟩
  have hraw : validatedPushResults 1 (createdDelay.outbox.getPendingChanges 100 20) [delayAnswer] =
      some [delayAnswer] := by
    rw [hbatch]
    refine if_pos ⟨List.cons_ne_nil _ _, List.nodup_singleton _, ?_, ?_⟩
    · intro r hr
      exact ⟨sentDelay, List.mem_cons_self, List.mem_singleton.mp hr ▸ rfl,
        List.mem_singleton.mp hr ▸ rfl⟩
    · intro e he
      exact ⟨delayAnswer, List.mem_cons_self, List.mem_singleton.mp he ▸ rfl⟩
  have hfresh : ∀ e ∈ createdDelay.outbox ++ createdDelay.outbox.getPendingChanges 100 20,
      e.changeId ≠ 2 := by
    have hboth : createdDelay.outbox ++ createdDelay.outbox.getPendingChanges 100 20 =
        [sentDelay, sentDelay] := rfl
    rw [hboth]
    intro e he
    simp only [List.mem_cons, List.not_mem_nil, or_false, or_self] at he
    rw [he]
    decide
  have hnewer : e.changeId ≠ sentDelay.changeId := by
    rw [Option.some.inj hid]
    decide
  have hiff := @newer_edit_kept_iff 1 createdDelay createdDelay
      (editedDelay "Late delivery" "R-001")
    100 20 sentDelay e (renamedDelay "Late delivery" "R-001") ⟨2, 30⟩ saved [delayAnswer]
    [delayAnswer] [] [] delayAnswer [] createdDelay_reached (hbatch ▸ List.mem_cons_self) .refl rfl
    rfl hfresh rfl he hnewer hsaved hraw rfl rfl rfl rfl
  obtain ⟨e', r', he', hr', hkeeps⟩ := hiff.mpr fun v hv ↦ by
    have hcode : Val.str "R-001" = v := Option.some.inj hv
    subst hcode
    exact ⟨rfl, Or.inl rfl⟩
  exact ⟨e, saved, e', r', Option.some.inj hid, he', hr', hkeeps⟩

end Sample

end RiskApp.Client

import RiskApp.Client.CodeIndex

namespace RiskApp.Client

open Lib Server

/-- What the server has of the rows of a project: their versions, and their codes, trimmed. -/
structure ServerRows where
  version : EntityKey → Option ℤ
  code : EntityKey → Val

structure ServerRows.Sends (s : ServerRows) (k : EntityKey) (record : Dict) : Prop where
  version : s.version k = some (recordVersion record)
  code : recordCode k.1 record = s.code k
  text : record.get .code = .null ∨ ∃ t, record.get .code = .str t

/-- The server over time: its codes are distinct, and a row that changes gets a higher version. -/
structure History where
  rows : ℕ → ServerRows
  distinct : ∀ time, Labels.Distinct Prod.fst Val.null (rows time).code
  advances : ∀ {time later k v}, time ≤ later → (rows time).version k = some v →
    ∃ v', (rows later).version k = some v' ∧
      (v < v' ∨ v' = v ∧ (rows later).code k = (rows time).code k)

/-- The result answers a change of the entity `k`, with the server's row if it has one. -/
structure Answers (projectId : Uuid) (s : ServerRows) (c : Cache) (r : ChangeResult)
    (k : EntityKey) : Prop where
  accepted : r.status = .accepted
  entity : r.entity = k.1
  entityId : r.entityId = some k.2
  owner : ∀ e ∈ c.outbox, e.changeId = r.changeId → e.key = k
  state : ∀ record, serverRecord r = some record →
    LocalStore.checkAckIdentity projectId k.2 record = true ∧ Cache.Readable k.1 record ∧
      s.Sends k record ∧ ∀ v, serverVersion r = some v → v = recordVersion record
  bare : serverRecord r = none → s.version k = none

structure Brings (r : ChangeResult) (k : EntityKey) : Prop where
  entity : r.entity = k.1
  entityId : r.entityId = some k.2
  record : (serverRecord r).isSome = true

namespace Cache

/-- The change is still queued under the id of the result, or a newer one is. -/
def awaits (c : Cache) (r : ChangeResult) (k : EntityKey) : Prop :=
  ∃ e, c.outbox.entry k = some e ∧ (e.changeId = r.changeId ∨ e.queued = true)

def brought (results : List ChangeResult) : Set EntityKey := {k | ∃ r ∈ results, Brings r k}

def acknowledgedRows (c : Cache) (results : List ChangeResult) : Set EntityKey :=
  {k | ∃ r ∈ results, Brings r k ∧ c.awaits r k}

end Cache

theorem Brings.unique {r : ChangeResult} {k k' : EntityKey} (h : Brings r k) (h' : Brings r k') :
    k' = k :=
  Prod.ext (h'.entity.symm.trans h.entity) (Option.some.inj (h'.entityId.symm.trans h.entityId))

namespace Cache

variable {projectId : Uuid} {s : ServerRows} {c t t' : Cache} {k : EntityKey} {r : ChangeResult}
  {results done : List ChangeResult}

theorem acknowledgedRows_subset : c.acknowledgedRows results ⊆ brought results :=
  fun _ ⟨r, hr, hb, _⟩ ↦ ⟨r, hr, hb⟩

theorem brought_mono (h : done ⊆ results) : brought done ⊆ brought results :=
  fun _ ⟨r, hr, hb⟩ ↦ ⟨r, h hr, hb⟩

theorem acknowledgedRows_nil : c.acknowledgedRows [] = ∅ :=
  Set.eq_empty_of_forall_notMem fun _ ⟨_, hr, _⟩ ↦ List.not_mem_nil hr

theorem acknowledgedRows_insert (hb : Brings r k) (ha : c.awaits r k) :
    c.acknowledgedRows (done ++ [r]) = insert k (c.acknowledgedRows done) := by
  ext k'
  constructor
  · rintro ⟨r', hr', hb', ha'⟩
    rcases List.mem_append.mp hr' with hr' | hr'
    · exact Or.inr ⟨r', hr', hb', ha'⟩
    · obtain rfl := List.mem_singleton.mp hr'
      exact Or.inl (hb.unique hb')
  · rintro (rfl | ⟨r', hr', hb', ha'⟩)
    · exact ⟨r, by simp, hb, ha⟩
    · exact ⟨r', List.mem_append_left _ hr', hb', ha'⟩

theorem acknowledgedRows_pass (h : ∀ k, Brings r k → ¬ c.awaits r k) :
    c.acknowledgedRows (done ++ [r]) = c.acknowledgedRows done := by
  ext k
  constructor
  · rintro ⟨r', hr', hb, ha⟩
    rcases List.mem_append.mp hr' with hr' | hr'
    · exact ⟨r', hr', hb, ha⟩
    · obtain rfl := List.mem_singleton.mp hr'
      exact absurd ha (h k hb)
  · rintro ⟨r', hr', hb, ha⟩
    exact ⟨r', List.mem_append_left _ hr', hb, ha⟩

theorem not_brings (h : serverRecord r = none) (k : EntityKey) : ¬ Brings r k := by
  intro hb
  have hsome := hb.record
  rw [h] at hsome
  cases hsome

/-- A batch before one of its results: the rows brought so far have the server's codes, and no
other row has a code that the batch names. -/
structure Halfway (c : Cache) (s : ServerRows) (results done : List ChangeResult) (t : Cache) :
    Prop where
  sound : t.Sound
  keys : (t.rows.map CachedRow.key).Nodup
  codes : t.code = Labels.assign (c.acknowledgedRows done) s.code
    (Labels.release Prod.fst .null (brought results) s.code c.code)
  entry : ∀ k, (∀ r ∈ done, r.entity = k.1 → r.entityId ≠ some k.2) →
    t.outbox.entry k = c.outbox.entry k
  ids : ∀ e ∈ t.outbox, ∃ e₀ ∈ c.outbox, e₀.changeId = e.changeId ∧ e₀.key = e.key
  left : ∀ k, t.outbox.entry k = none →
    c.outbox.entry k = none ∨ k ∈ c.acknowledgedRows done ∨ s.version k = none

section Release

theorem keys_store (c : Cache) :
    c.rows.map CachedRow.key = c.store.rows.map LocalRow.key := by
  rw [store, List.map_map]
  rfl

theorem mem_acknowledgedRecords {p : ChangeResult × Dict} {entity : Entity} :
    p ∈ acknowledgedRecords entity results ↔
      p.1 ∈ results ∧ p.1.entity = entity ∧ p.1.status = .accepted ∧
        serverRecord p.1 = some p.2 := by
  rw [acknowledgedRecords, List.mem_filterMap]
  constructor
  · rintro ⟨r, hr, h⟩
    split at h
    · rename_i hacc
      obtain ⟨record, hrecord, rfl⟩ := Option.map_eq_some_iff.mp h
      exact ⟨hr, hacc.1, hacc.2, hrecord⟩
    · cases h
  · rintro ⟨hr, hentity, hacc, hrecord⟩
    exact ⟨p.1, hr, by rw [if_pos ⟨hentity, hacc⟩, hrecord]; rfl⟩

theorem mem_acknowledgedIds (h : ∀ r ∈ results, ∃ k, Answers projectId s c r k) :
    k.2 ∈ acknowledgedIds k.1 results ↔ k ∈ brought results := by
  rw [acknowledgedIds, List.mem_filterMap]
  constructor
  · rintro ⟨⟨r, record⟩, hp, hid⟩
    obtain ⟨hr, hentity, -, hrecord⟩ := mem_acknowledgedRecords.mp hp
    obtain ⟨k', hk'⟩ := h r hr
    have hname : r.entityId = some k.2 := by
      rw [hk'.entityId, Option.some_or] at hid
      rw [hk'.entityId, hid]
    exact ⟨r, hr, hentity, hname, by rw [hrecord]; rfl⟩
  · rintro ⟨r, hr, hb⟩
    obtain ⟨record, hrecord⟩ := Option.isSome_iff_exists.mp hb.record
    obtain ⟨k', hk'⟩ := h r hr
    refine ⟨(r, record), mem_acknowledgedRecords.mpr ⟨hr, hb.entity, hk'.accepted, hrecord⟩, ?_⟩
    rw [hb.entityId]
    rfl

theorem normText_orElse {v : Val} (h : v = .null ∨ ∃ text, v = .str text) :
    normText (Val.orElse v (.str "")) = normText v := by
  rcases h with rfl | ⟨text, rfl⟩
  · rfl
  · by_cases hempty : text = ""
    · rw [hempty]
      rfl
    · have htrue : (Val.str text).truthy = true := decide_eq_true hempty
      rw [Val.orElse, if_pos htrue]

theorem mem_acknowledgedCodes (h : ∀ r ∈ results, ∃ k, Answers projectId s c r k)
    (hs : k.1.scored = true) {v : Val} (hv : v ≠ .null) :
    v ∈ acknowledgedCodes k.1 results ↔ ∃ j ∈ brought results, j.1 = k.1 ∧ s.code j = v := by
  have hcode : ∀ {r : ChangeResult} {record : Dict} {j : EntityKey}, Answers projectId s c r j →
      j.1 = k.1 → serverRecord r = some record →
      normText (Val.orElse (record.get .code) (.str "")) = s.code j := by
    intro r record j hr hj hrecord
    obtain ⟨-, -, hsends, -⟩ := hr.state record hrecord
    rw [normText_orElse hsends.text, ← hsends.code, recordCode, if_pos (hj ▸ hs)]
  rw [acknowledgedCodes, List.mem_filter, List.mem_map]
  constructor
  · rintro ⟨⟨⟨r, record⟩, hp, hin⟩, -⟩
    obtain ⟨hr, hentity, -, hrecord⟩ := mem_acknowledgedRecords.mp hp
    obtain ⟨j, hj⟩ := h r hr
    have htable : j.1 = k.1 := hj.entity.symm.trans hentity
    refine ⟨j, ⟨r, hr, hj.entity, hj.entityId, by rw [hrecord]; rfl⟩, htable, ?_⟩
    exact (hcode hj htable hrecord).symm.trans hin
  · rintro ⟨j, ⟨r, hr, hb⟩, htable, hin⟩
    obtain ⟨record, hrecord⟩ := Option.isSome_iff_exists.mp hb.record
    obtain ⟨j', hj'⟩ := h r hr
    have hsame : j' = j := hb.unique ⟨hj'.entity, hj'.entityId, hb.record⟩
    subst hsame
    refine ⟨⟨(r, record), mem_acknowledgedRecords.mpr ⟨hr, hb.entity.trans htable, hj'.accepted,
      hrecord⟩, ?_⟩, decide_eq_true hv⟩
    exact (hcode hj' htable hrecord).trans hin

theorem rowCode_losing {p : Val → Bool} {entity : Entity} (hs : entity.scored = true)
    (o : Option CachedRow) :
    rowCode entity (o.map (losing p)) =
      if p (rowCode entity o) then .null else rowCode entity o := by
  cases o with
  | none => rw [Option.map_none, rowCode_none, ite_self]
  | some row => rw [Option.map_some, rowCode_some hs, rowCode_some hs, losing_code]

/-- The batch gives up every code of its rows, and every code it brings. -/
theorem code_releaseScoredCodes (h : ∀ r ∈ results, ∃ k, Answers projectId s c r k)
    (ht : (releaseScoredCodes projectId results).eval c = some ((), t)) :
    t.code = Labels.release Prod.fst .null (brought results) s.code c.code := by
  funext k
  rw [code, (releaseScoredCodes_row ht).2]
  cases hs : k.1.scored with
  | false =>
    have hnull : ∀ o, rowCode k.1 o = .null := fun o ↦ if_neg (by rw [hs]; decide)
    rw [hnull]
    rcases Labels.release_or Prod.fst Val.null (brought results) s.code c.code k with hb | ⟨hk, -⟩
    · exact hb.symm
    · exact (hk.trans (hnull _)).symm
  | true =>
    have hcode : rowCode k.1 (c.row k) = c.code k := rfl
    rw [rowCode_losing hs, hcode]
    by_cases hnull : c.code k = .null
    · rw [hnull, ite_self]
      rcases Labels.release_or Prod.fst Val.null (brought results) s.code c.code k with hb | ⟨hk, -⟩
      · exact hb.symm
      · exact (hk.trans hnull).symm
    · have hreleases : releases k results (c.code k) = true ↔ k ∈ brought results ∨
          ∃ j ∈ brought results, j.1 = k.1 ∧ s.code j = c.code k := by
        rw [releases, hs, Bool.true_and, Bool.or_eq_true, decide_eq_true_eq, decide_eq_true_eq,
          mem_acknowledgedIds h, mem_acknowledgedCodes h hs hnull]
      by_cases hgiven : k ∈ brought results ∨
          ∃ j ∈ brought results, j.1 = k.1 ∧ s.code j = c.code k
      · rw [if_pos (hreleases.mpr hgiven), Labels.release_given hgiven]
      · rw [if_neg fun hrel ↦ hgiven (hreleases.mp hrel), Labels.release_kept hgiven]

theorem releaseScoredCodes_returns (h : ∀ r ∈ results, ∃ k, Answers projectId s c r k) :
    ∃ t, (releaseScoredCodes projectId results).eval c = some ((), t) := by
  have hidentity : ∀ entity ∈ [Entity.risk, .opportunity], ∀ u : Cache, ∃ u',
      (Work.require ((acknowledgedRecords entity results).all (ackIdentityHolds projectId)) :
        Work Cache Unit).eval u = some ((), u') := by
    intro entity _ u
    refine ⟨u, ?_⟩
    have hall : (acknowledgedRecords entity results).all (ackIdentityHolds projectId) = true := by
      refine List.all_eq_true.mpr fun p hp ↦ ?_
      obtain ⟨hr, -, -, hrecord⟩ := mem_acknowledgedRecords.mp hp
      obtain ⟨k, hk⟩ := h p.1 hr
      rw [ackIdentityHolds, hk.entityId]
      exact (hk.state p.2 hrecord).1
    rw [hall]
    rfl
  have hclears : ∀ entity ∈ [Entity.risk, .opportunity], ∀ u : Cache, ∃ u',
      (if (acknowledgedRecords entity results).isEmpty then (pure () : Work Cache Unit)
        else changeRows (releasesCode entity results) clearCode).eval u = some ((), u') := by
    intro entity _ u
    split
    · exact ⟨u, rfl⟩
    · exact ⟨_, rfl⟩
  obtain ⟨u, hchecks⟩ := Work.eval_forM_total hidentity c
  obtain ⟨t, hloop⟩ := Work.eval_forM_total hclears u
  refine ⟨t, ?_⟩
  rw [releaseScoredCodes, Work.eval_bind, hchecks, Option.bind_some, Work.eval_bind, hloop]
  rfl

theorem Halfway.start (hc : c.Sound) (hi : c.Indexed)
    (h : ∀ r ∈ results, ∃ k, Answers projectId s c r k) :
    ∃ t, (releaseScoredCodes projectId results).eval c = some ((), t) ∧
      Halfway c s results [] t := by
  obtain ⟨t, ht⟩ := releaseScoredCodes_returns h
  have hstore := releaseScoredCodes_store ht
  have hout : t.outbox = c.outbox := congrArg LocalStore.outbox hstore
  refine ⟨t, ht, ⟨hout ▸ hc.distinct, hstore ▸ hc.paired⟩, ?_, ?_, fun k _ ↦ by rw [hout],
    fun e he ↦ ⟨e, hout ▸ he, rfl, rfl⟩, fun k hk ↦ Or.inl (hout ▸ hk)⟩
  · rw [keys_store, hstore, ← keys_store]
    exact hi.keys
  · rw [acknowledgedRows_nil, Labels.assign_empty]
    exact code_releaseScoredCodes h ht

end Release

section Returns

theorem normScoredMeta_congr {fields fields' : Columns}
    (h : ∀ a, a ∈ textMetaKeys ∨ a ∈ impactDimensions → fields a = fields' a) :
    normScoredMeta fields = normScoredMeta fields' := by
  have hall : impactDimensions.all (fun a ↦ (optionalInt (fields a)).isSome) =
      impactDimensions.all fun a ↦ (optionalInt (fields' a)).isSome := by
    rw [Bool.eq_iff_iff, List.all_eq_true, List.all_eq_true]
    exact forall₂_congr fun a ha ↦ by rw [h a (Or.inr ha)]
  unfold normScoredMeta
  rw [hall]
  split
  · refine congrArg some (funext fun a ↦ ?_)
    by_cases htext : a ∈ textMetaKeys
    · rw [if_pos htext, if_pos htext, h a (Or.inl htext)]
    · rw [if_neg htext, if_neg htext]
      by_cases hdim : a ∈ impactDimensions
      · rw [if_pos hdim, if_pos hdim, h a (Or.inr hdim)]
      · rw [if_neg hdim, if_neg hdim]
  · rfl

theorem ackRecord_get {record : Dict} {a : Attr} (hid : a ≠ .id) (hproject : a ≠ .projectId) :
    (ackRecord projectId k record).get a = record.get a := by
  simp [ackRecord, Dict.get, Dict.set, hid, hproject]

theorem pulledColumns_acknowledged (c : Cache) (record : Dict) :
    c.pulledColumns k.1 (ackRecord projectId k record) = c.pulledColumns k.1 record := by
  have hscored : pulledScored (ackRecord projectId k record) = pulledScored record := by
    have hmeta : normScoredMeta (fun a ↦ if a = .status
        then Val.orElse ((ackRecord projectId k record).get .status) (.str "concept")
        else (ackRecord projectId k record).get a) = normScoredMeta fun a ↦ if a = .status
        then Val.orElse (record.get .status) (.str "concept") else record.get a := by
      refine normScoredMeta_congr fun a ha ↦ ?_
      have hne : a ≠ .id ∧ a ≠ .projectId := by
        constructor <;> rintro rfl <;> revert ha <;> decide
      rw [ackRecord_get hne.1 hne.2, ackRecord_get (by decide) (by decide)]
    unfold pulledScored
    dsimp only
    rw [hmeta]
    rfl
  generalize hk : k.1 = entity
  cases entity with
  | risk | opportunity => exact hscored
  | action | assessment | helpdeskTicket => rfl

theorem Readable.acknowledged {record : Dict} (h : Readable k.1 record) :
    Readable k.1 (ackRecord projectId k record) := by
  refine ⟨rfl, fun _ ↦ ?_, h.item, h.version, fun hs ↦ ?_, fun id c columns hcolumns ↦ ?_⟩
  · have hproject : (ackRecord projectId k record).get .projectId = .uuid projectId := by
      simp [ackRecord, Dict.get]
    rw [hproject]
    intro hnull
    cases hnull
  · have hsame := @pulledColumns_acknowledged projectId k {} record
    have hnumbers := h.numbers hs
    have hscored : pulledScored (ackRecord projectId k record) = pulledScored record := by
      cases hk : k.1 <;> rw [hk] at hs hsame <;> first | exact hsame | cases hs
    rwa [hscored]
  · rw [pulledColumns_acknowledged] at hcolumns
    exact h.binds id c columns hcolumns

theorem acknowledgeSent_returns {sent : Entry} (hk : sent.key = k) (h : Answers projectId s c r k)
    (t : Cache) : ∃ t', (acknowledgeSent projectId sent r).eval t = some ((), t') := by
  subst hk
  have hmatch : (decide (r.entity = sent.entity) && r.entityId.all (· = sent.entityId)) = true := by
    have hentity : r.entity = sent.entity := h.entity
    have hid : r.entityId = some sent.entityId := h.entityId
    rw [hentity, hid]
    simp
  rw [acknowledgeSent, Work.eval_bind, Work.eval_require, if_pos hmatch, Option.bind_some,
    Work.eval_bind, changeOutbox, Work.eval_modify, Option.bind_some]
  unfold applyPushAcknowledgement
  cases hrecord : serverRecord r with
  | some record =>
    obtain ⟨hident, hreadable, -, hversion⟩ := h.state record hrecord
    have hversion : (serverVersion r).all (some · = versionOf record) = true := by
      obtain ⟨w, hw⟩ := Option.isSome_iff_exists.mp hreadable.version
      cases hv : serverVersion r with
      | none => rfl
      | some v =>
        rw [hversion v hv, Option.all_some, recordVersion, hw, Option.getD_some, decide_eq_true rfl]
    dsimp only
    rw [Work.eval_bind, Work.eval_require, if_pos hident, Option.bind_some, Work.eval_bind,
      Work.eval_require, if_pos hversion, Option.bind_some]
    refine applyPullEntities_returns (fun record' hr' ↦ ?_) _
    rw [List.mem_singleton.mp hr']
    exact hreadable.acknowledged
  | none =>
    cases serverVersion r with
    | none => exact ⟨_, rfl⟩
    | some v => exact ⟨_, rfl⟩

theorem advancePushAcknowledgement_returns {version : Option ℤ} {kept : Option Dict}
    (hident : LocalStore.checkAckIdentity projectId k.2 (kept.getD .empty) = true)
    (hversion : ∀ v w, version = some v → LocalStore.strictVersion (kept.getD .empty) = some w →
      v = w)
    (hfree : ∀ v, (if k.1.scored then kept.bind fun record ↦ record .code else none) = some v →
      t.codeTaken k v = false) :
    ∃ t', (advancePushAcknowledgement projectId k version kept).eval t = some ((), t') := by
  have hcheck : (version.isNone || (LocalStore.strictVersion (kept.getD .empty)).isNone ||
      decide (version = LocalStore.strictVersion (kept.getD .empty))) = true := by
    cases hv : version with
    | none => rfl
    | some v =>
      cases hw : LocalStore.strictVersion (kept.getD .empty) with
      | none => rfl
      | some w =>
        rw [hversion v w hv hw]
        simp
  rw [advancePushAcknowledgement]
  dsimp only
  rw [Work.eval_bind, Work.eval_require, if_pos hident, Option.bind_some, Work.eval_bind,
    Work.eval_require, if_pos hcheck, Option.bind_some, assignedCode_eq]
  generalize (if k.1.scored then kept.bind fun record ↦ record .code else none) = assigned
    at hfree ⊢
  split
  · exact ⟨t, rfl⟩
  · rw [Work.eval_bind, Work.eval_statement, if_neg]
    · exact ⟨_, rfl⟩
    · intro htaken
      obtain ⟨v, hv, hin⟩ := (Option.any_eq_true _ _).mp htaken
      rw [hfree v hv] at hin
      cases hin

theorem advanceReplacement_passed (h : Answers projectId s c r k)
    (hnone : ∀ e ∈ t.outbox, e.key = k → e.queued = false) :
    (advanceReplacement projectId r).eval t = some ((), t) := by
  have hempty : (t.outbox.filter fun e ↦ e.key = (k.1, k.2) && e.queued) = [] := by
    refine List.filter_eq_nil_iff.mpr fun e he hp ↦ ?_
    simp only [Bool.and_eq_true, decide_eq_true_eq] at hp
    rw [hnone e he hp.1] at hp
    cases hp.2
  rw [advanceReplacement, h.entityId]
  dsimp only
  rw [h.entity, Work.eval_bind, Work.eval_select, Option.bind_some, hempty]
  rfl

theorem advanceReplacement_returns (h : Answers projectId s c r k)
    (hfree : ∀ v, followedCode k.1 r = some v → t.codeTaken k v = false) :
    ∃ t', (advanceReplacement projectId r).eval t = some ((), t') := by
  rw [advanceReplacement, h.entityId]
  dsimp only
  rw [h.entity, Work.eval_bind, Work.eval_select, Option.bind_some]
  cases (Outbox.oldestFirst (t.outbox.filter fun e ↦ e.key = (k.1, k.2) && e.queued)).head? with
  | none => exact ⟨t, rfl⟩
  | some e =>
    dsimp only
    rw [Work.eval_bind, changeOutbox, Work.eval_modify, Option.bind_some]
    refine advancePushAcknowledgement_returns ?_ (fun v w hv hw ↦ ?_) fun v hv ↦ ?_
    · cases hrecord : serverRecord r with
      | none => split <;> rfl
      | some record =>
        obtain ⟨hident, -⟩ := h.state record hrecord
        split <;> exact hident
    · cases hrecord : serverRecord r with
      | none =>
        rw [hrecord] at hw
        split at hw <;> cases hw
      | some record =>
        rw [hrecord] at hw
        split at hw
        · cases hw
        · rename_i hkept
          obtain ⟨-, -, -, hversion⟩ := h.state record hrecord
          have hserver : serverVersion r = some v := by
            unfold acknowledgedVersion at hv hkept
            cases hreplayed : r.replayed with
            | false => simpa [hreplayed] using hv
            | true =>
              simp only [hreplayed, if_true, Bool.true_and, decide_eq_true_eq, ne_eq,
                not_not] at hv hkept
              exact hkept.symm.trans hv
          rw [hversion v hserver]
          unfold LocalStore.strictVersion at hw
          split at hw
          · rename_i n hn
            exact (recordVersion_int hn).trans (Option.some.inj hw)
          · cases hw
    · exact hfree v ((keptCode_eq k.1 r).symm.trans hv)

end Returns

/-- The result gives its row the server's code: a newer change follows a trimmed code only, and
the row of a change that is no longer queued has no code to lose. -/
structure KeepsRowCode (c : Cache) (r : ChangeResult) (k : EntityKey) : Prop where
  trimmed : ∀ record e, serverRecord r = some record → c.outbox.entry k = some e →
    e.queued = true → e.changeId ≠ r.changeId → normText (record.get .code) = record.get .code
  passed : Brings r k → ¬ c.awaits r k → c.code k = .null

section Step

theorem Sound.acknowledgeResult (h : t.Sound)
    (hstep : (acknowledgeResult projectId r).eval t = some ((), t')) : t'.Sound := by
  have hack := LocalStore.acknowledgeResult_acknowledged h.distinct
    (acknowledgeResult_store h.distinct hstep)
  exact ⟨hack.distinct h.distinct, h.paired.acknowledged h.distinct hack⟩

theorem code_advance {version : Option ℤ} {assigned : Option Val} {row : CachedRow}
    (hrow : t.row k = some row) (j : EntityKey) :
    (t.updateRows (·.key = k) (advanceRow version assigned)).code j =
      if k = j then (if k.1.scored then assigned.getD (t.code k) else .null) else t.code j := by
  rw [code, row_updateRows_key t k (advanceRow_key version assigned)]
  by_cases hj : k = j
  · subst hj
    rw [if_pos rfl, if_pos rfl, hrow, Option.map_some]
    cases hs : k.1.scored with
    | false => exact if_neg (by rw [hs]; decide)
    | true => rw [rowCode_some hs, advanceRow_code, if_pos rfl, code, hrow, rowCode_some hs]
  · rw [if_neg hj, if_neg hj]
    rfl

/-- One more result, which touches the entry of its own entity only. -/
theorem Halfway.next (h : Halfway c s results done t) (hsound : t'.Sound)
    (hkeys : (t'.rows.map CachedRow.key).Nodup)
    (hcodes : t'.code = Labels.assign (c.acknowledgedRows (done ++ [r])) s.code
      (Labels.release Prod.fst .null (brought results) s.code c.code))
    (hr : r.entity = k.1) (hrid : r.entityId = some k.2)
    (hothers : ∀ k', k ≠ k' → t'.outbox.entry k' = t.outbox.entry k')
    (hids : ∀ e' ∈ t'.outbox, ∃ e ∈ t.outbox, e.changeId = e'.changeId ∧ e.key = e'.key)
    (hmine : t'.outbox.entry k = none →
      c.outbox.entry k = none ∨ k ∈ c.acknowledgedRows (done ++ [r]) ∨ s.version k = none) :
    Halfway c s results (done ++ [r]) t' := by
  refine ⟨hsound, hkeys, hcodes, fun k' hk' ↦ ?_, fun e' he' ↦ ?_, fun k' hk' ↦ ?_⟩
  · have hne : k ≠ k' := by
      rintro rfl
      exact hk' r (by simp) hr hrid
    rw [hothers k' hne]
    exact h.entry k' fun r' hr' ↦ hk' r' (List.mem_append_left _ hr')
  · obtain ⟨e, he, hid, hkey⟩ := hids e' he'
    obtain ⟨e₀, he₀, hid₀, hkey₀⟩ := h.ids e he
    exact ⟨e₀, he₀, hid₀.trans hid, hkey₀.trans hkey⟩
  · by_cases hne : k = k'
    · subst hne
      exact hmine hk'
    · rw [hothers k' hne] at hk'
      refine (h.left k' hk').imp id (Or.imp ?_ id)
      rintro ⟨r', hr', hb⟩
      exact ⟨r', List.mem_append_left _ hr', hb⟩

theorem mem_deleteOutboxIds {o : Outbox} {ids : List Uuid} {e : Entry}
    (h : e ∈ o.deleteOutboxIds ids) : e ∈ o := (List.mem_filter.mp h).1

theorem Halfway.sent {sent : Entry} (h : Halfway c s results done t) (hi : c.Indexed)
    (hg : Labels.Distinct Prod.fst Val.null s.code) (hsub : done ⊆ results) (hr : r ∈ results)
    (ha : Answers projectId s c r k) (hmem : sent ∈ t.outbox) (hkey : sent.key = k)
    (hid : sent.changeId = r.changeId) (hentry : c.outbox.entry k = some sent)
    (hack : AcknowledgesSent projectId t sent r t') (hsound : t'.Sound) :
    Halfway c s results (done ++ [r]) t' := by
  subst hkey
  have hothers : ∀ k', sent.key ≠ k' →
      (t.outbox.deleteOutboxIds [sent.changeId]).entry k' = t.outbox.entry k' :=
    fun k' hk' ↦ entry_deleteOutboxIds h.sound.distinct hmem hk'
  have hids : ∀ e' ∈ t.outbox.deleteOutboxIds [sent.changeId],
      ∃ e ∈ t.outbox, e.changeId = e'.changeId ∧ e.key = e'.key :=
    fun e' he' ↦ ⟨e', mem_deleteOutboxIds he', rfl, rfl⟩
  have hpass : serverRecord r = none →
      c.acknowledgedRows (done ++ [r]) = c.acknowledgedRows done :=
    fun hnone ↦ acknowledgedRows_pass fun k hb ↦ absurd hb (not_brings hnone k)
  cases hack with
  | @copied record columns state built =>
    have hbrings : Brings r sent.key := ⟨ha.entity, ha.entityId, by rw [state]; rfl⟩
    have hawaits : c.awaits r sent.key := ⟨sent, hentry, Or.inl hid⟩
    have hindexed : (t.setOutbox (·.deleteOutboxIds [sent.changeId])).Indexed :=
      Indexed.of_rows ⟨h.keys, h.codes ▸ hi.codes.assign_release hg
        (acknowledgedRows_subset.trans (brought_mono hsub))⟩ rfl
    obtain ⟨-, -, hsends, -⟩ := ha.state record state
    have hcode : recordCode sent.key.1 (ackRecord projectId sent.key record) = s.code sent.key :=
      hsends.code
    refine h.next hsound (hindexed.takeRecord (k := sent.key) built).keys ?_ ha.entity ha.entityId
      hothers hids fun _ ↦ Or.inr (Or.inl ⟨r, by simp, hbrings, hawaits⟩)
    rw [code_takeRecord (k := sent.key) built, hcode, acknowledgedRows_insert hbrings hawaits]
    have hcodes : (t.setOutbox (·.deleteOutboxIds [sent.changeId])).code = _ := h.codes
    rw [hcodes]
    exact Labels.claim_assign_release hg ⟨r, hr, hbrings⟩
  | @versioned v state =>
    refine h.next hsound ?_ ?_ ha.entity ha.entityId hothers hids
      fun _ ↦ Or.inr (Or.inr (ha.bare state))
    · rw [keys_updateRows _ _ (versionedRow_key v)]
      exact h.keys
    · rw [hpass state, ← h.codes]
      funext j
      have hrow := row_updateRows_key (t.setOutbox (·.deleteOutboxIds [sent.changeId])) sent.key
        (versionedRow_key v) j
      rw [code, hrow]
      split
      · rename_i hj
        subst hj
        cases hfind : (t.setOutbox (·.deleteOutboxIds [sent.changeId])).row sent.key with
        | none =>
          have hfind : t.row sent.key = none := hfind
          rw [code, hfind]
          rfl
        | some row =>
          have hfind : t.row sent.key = some row := hfind
          rw [code, hfind]
          rfl
      · rfl
  | removed state =>
    refine h.next hsound h.keys ?_ ha.entity ha.entityId hothers hids
      fun _ ↦ Or.inr (Or.inr (ha.bare state))
    rw [hpass state]
    exact h.codes

theorem Halfway.superseded {e : Entry} {version : Option ℤ} {f : Entry → Entry}
    (h : Halfway c s results done t) (hr : r ∈ results) (ha : Answers projectId s c r k)
    (hkeeps : k.1.scored = true → KeepsRowCode c r k) (hmem : e ∈ t.outbox) (hkey : e.key = k)
    (hq : e.queued = true) (hid : e.changeId ≠ r.changeId) (hentry : c.outbox.entry k = some e)
    (hf : ∀ e, (f e).changeId = e.changeId ∧ (f e).key = e.key)
    (hsound : ((t.setOutbox (·.update (·.changeId = e.changeId) f)).updateRows (·.key = k)
      (advanceRow version (followedCode k.1 r))).Sound) :
    Halfway c s results (done ++ [r]) ((t.setOutbox (·.update (·.changeId = e.changeId)
      f)).updateRows
      (·.key = k) (advanceRow version (followedCode k.1 r))) := by
  have hd := h.sound.distinct
  have hawaits : c.awaits r k := ⟨e, hentry, Or.inr hq⟩
  obtain ⟨view, hview, -⟩ := h.sound.paired e hmem
  rw [store_row, hkey] at hview
  obtain ⟨row, hrow, -⟩ := Option.map_eq_some_iff.mp hview
  have hrow : (t.setOutbox (·.update (·.changeId = e.changeId) f)).row k = some row := hrow
  refine h.next hsound ?_ ?_ ha.entity ha.entityId
    (fun k' hk' ↦ hd.entry_update_other hmem (hkey.symm ▸ hk') fun e ↦ (hf e).2) (fun e' he' ↦ ?_)
    fun hnone ↦ ?_
  · rw [keys_updateRows _ _ (advanceRow_key version _)]
    exact h.keys
  · funext j
    rw [code_advance hrow]
    have hcodes : (t.setOutbox (·.update (·.changeId = e.changeId) f)).code = t.code := rfl
    rw [hcodes]
    cases hrecord : serverRecord r with
    | none =>
      have hassigned : followedCode k.1 r = none := by
        rw [followedCode, hrecord]
        exact ite_self _
      rw [hassigned, acknowledgedRows_pass fun k hb ↦ absurd hb (not_brings hrecord k), ← h.codes]
      by_cases hj : k = j
      · subst hj
        rw [if_pos rfl]
        split
        · rfl
        · rename_i hs
          exact (if_neg hs).symm
      · rw [if_neg hj]
    | some record =>
      have hbrings : Brings r k := ⟨ha.entity, ha.entityId, by rw [hrecord]; rfl⟩
      obtain ⟨-, -, hsends, -⟩ := ha.state record hrecord
      rw [acknowledgedRows_insert hbrings hawaits]
      by_cases hj : k = j
      · subst hj
        rw [if_pos rfl, Labels.assign_of_mem (Set.mem_insert k _), ← hsends.code, recordCode]
        cases hs : k.1.scored with
        | false => rfl
        | true =>
          rw [if_pos rfl, if_pos rfl]
          have htrim := (hkeeps hs).trimmed record e hrecord hentry hq hid
          rw [followedCode, if_pos hs, hrecord, Option.bind_some]
          cases hcode : record .code with
          | some raw =>
            have hget : record.get .code = raw := by rw [Dict.get, hcode]; rfl
            rw [hget] at htrim ⊢
            exact htrim.symm
          | none =>
            have hget : record.get .code = .null := by rw [Dict.get, hcode]; rfl
            rw [hget, h.codes]
            by_cases hk : k ∈ c.acknowledgedRows done
            · rw [Labels.assign_of_mem hk, ← hsends.code, recordCode, if_pos hs, hget]
              rfl
            · rw [Labels.assign_of_not_mem hk]
              exact Labels.release_given (Or.inl ⟨r, hr, hbrings⟩)
      · rw [if_neg hj, Labels.assign_insert_of_ne (Ne.symm hj), h.codes]
  · obtain ⟨e₀, he₀, ⟨-, rfl⟩ | ⟨-, rfl⟩⟩ := Outbox.mem_update he'
    · exact ⟨e₀, he₀, ((hf e₀).1).symm, ((hf e₀).2).symm⟩
    · exact ⟨e', he₀, rfl, rfl⟩
  · have hsame : (t.outbox.update (·.changeId = e.changeId) f).entry k = none := hnone
    rw [Outbox.entry_update_self (fun e ↦ (hf e).2) (hkey ▸ hd.entry_of_mem hmem)] at hsame
    cases hsame

theorem eval_acknowledgeResult_sent (projectId : Uuid) {sent : Entry}
    (haccepted : r.status = .accepted)
    (hfind : t.outbox.find? (·.changeId = r.changeId) = some sent) :
    (acknowledgeResult projectId r).eval t = (acknowledgeSent projectId sent r).eval t := by
  rw [acknowledgeResult, if_neg (by simp [haccepted]), Work.eval_bind, Work.eval_select, hfind]
  exact Option.bind_some _ _

theorem eval_acknowledgeResult_gone (projectId : Uuid) (haccepted : r.status = .accepted)
    (hfind : t.outbox.find? (·.changeId = r.changeId) = none) :
    (acknowledgeResult projectId r).eval t = (advanceReplacement projectId r).eval t := by
  rw [acknowledgeResult, if_neg (by simp [haccepted]), Work.eval_bind, Work.eval_select, hfind]
  exact Option.bind_some _ _

theorem Halfway.step {rest : List ChangeResult} (h : Halfway c s results done t) (hi : c.Indexed)
    (hg : Labels.Distinct Prod.fst Val.null s.code) (hsplit : results = done ++ r :: rest)
    (hnodup : (results.map fun r ↦ (r.entity, r.entityId)).Nodup) (ha : Answers projectId s c r k)
    (hkeeps : k.1.scored = true → KeepsRowCode c r k) :
    ∃ t', (acknowledgeResult projectId r).eval t = some ((), t') ∧
      Halfway c s results (done ++ [r]) t' := by
  have hr : r ∈ results := hsplit ▸ by simp
  have hsub : done ⊆ results := hsplit ▸ List.subset_append_left _ _
  have hd := h.sound.distinct
  have hentry : t.outbox.entry k = c.outbox.entry k := by
    refine h.entry k fun r' hr' hentity hid ↦ ?_
    rw [hsplit, List.map_append, List.map_cons, List.nodup_append] at hnodup
    refine hnodup.2.2 _ (List.mem_map_of_mem hr') _ List.mem_cons_self ?_
    rw [hentity, hid, ha.entity, ha.entityId]
  have hown : ∀ e ∈ t.outbox, e.changeId = r.changeId → e.key = k := by
    intro e he hid
    obtain ⟨e₀, he₀, hid₀, hkey₀⟩ := h.ids e he
    exact hkey₀.symm.trans (ha.owner e₀ he₀ (hid₀.trans hid))
  cases hfind : t.outbox.find? (·.changeId = r.changeId) with
  | some sent =>
    have heval := eval_acknowledgeResult_sent projectId ha.accepted hfind
    have hmem := List.mem_of_find?_eq_some hfind
    have hid : sent.changeId = r.changeId := by simpa using List.find?_some hfind
    have hkey := hown sent hmem hid
    obtain ⟨t', ht'⟩ := acknowledgeSent_returns hkey ha t
    have hdone := heval.trans ht'
    refine ⟨t', hdone, h.sent hi hg hsub hr ha hmem hkey hid ?_
      (acknowledgeSent_eval hd hmem ht').2 (h.sound.acknowledgeResult hdone)⟩
    rw [← hentry, ← hkey]
    exact hd.entry_of_mem hmem
  | none =>
    have heval := eval_acknowledgeResult_gone projectId ha.accepted hfind
    have hgone : ∀ e ∈ t.outbox, e.changeId ≠ r.changeId :=
      fun e he ↦ by simpa using List.find?_eq_none.mp hfind e he
    by_cases hq : ∃ e ∈ t.outbox, e.key = k ∧ e.queued = true
    · obtain ⟨e, hmem, hkey, hq⟩ := hq
      have hentry : c.outbox.entry k = some e := by
        rw [← hentry, ← hkey]
        exact hd.entry_of_mem hmem
      have hfree : ∀ v, followedCode k.1 r = some v → t.codeTaken k v = false := by
        intro v hv
        rw [Bool.eq_false_iff]
        intro htaken
        obtain ⟨hnull, hs, j, hne, htable, hcode⟩ := (codeTaken_iff h.keys).mp htaken
        rw [followedCode, if_pos hs] at hv
        obtain ⟨record, hrecord, hv⟩ := Option.bind_eq_some_iff.mp hv
        have hget : record.get .code = v := by rw [Dict.get, hv]; rfl
        have htrim := (hkeeps hs).trimmed record e hrecord hentry hq (hgone e hmem)
        obtain ⟨-, -, hsends, -⟩ := ha.state record hrecord
        have hright : s.code k = v := by
          rw [← hsends.code, recordCode, if_pos hs, htrim, hget]
        refine hnull (hright.symm.trans ?_)
        rw [h.codes] at hcode
        have hbrought : k ∈ brought results :=
          ⟨r, hr, ha.entity, ha.entityId, by rw [hrecord]; rfl⟩
        exact Labels.assign_release_free hg hbrought hne htable (hcode.trans hright.symm)
      obtain ⟨t', ht'⟩ := advanceReplacement_returns ha hfree
      have hdone := heval.trans ht'
      refine ⟨t', hdone, ?_⟩
      have hsound := h.sound.acknowledgeResult hdone
      have hentityId : r.entityId = some e.entityId :=
        ha.entityId.trans (congrArg (fun k : EntityKey ↦ some k.2) hkey).symm
      cases advanceReplacement_eval ht' with
      | passed alone =>
        exact absurd hentityId (alone e hmem hq (ha.entity.trans (congrArg Prod.fst hkey).symm))
      | @advanced e' mem entity entityId =>
        obtain rfl : e = e' := hd.eq_of_key hmem mem (Prod.ext (by
          exact (congrArg Prod.fst hkey).trans (ha.entity.symm.trans entity))
          (Option.some.inj (hentityId.symm.trans entityId)))
        have hentity : e.entity = k.1 := congrArg Prod.fst hkey
        rw [hkey, hentity] at hsound ⊢
        exact h.superseded hr ha hkeeps hmem hkey hq (hgone e hmem) hentry
          (fun e ↦ ⟨rfl, rfl⟩) hsound
    · have hnone : ∀ e ∈ t.outbox, e.key = k → e.queued = false := by
        intro e he hkey
        by_contra hqueued
        exact hq ⟨e, he, hkey, by simpa using hqueued⟩
      refine ⟨t, heval.trans (advanceReplacement_passed ha hnone), ?_⟩
      refine h.next h.sound h.keys ?_ ha.entity ha.entityId (fun _ _ ↦ rfl)
        (fun e he ↦ ⟨e, he, rfl, rfl⟩) fun hk ↦ Or.inl (hentry ▸ hk)
      rw [acknowledgedRows_pass fun k' hb ↦ ?_]
      · exact h.codes
      rintro ⟨e, he, hid⟩
      have hk : k' = k := Prod.ext (hb.entity.symm.trans ha.entity)
        (Option.some.inj (hb.entityId.symm.trans ha.entityId))
      rw [hk, ← hentry] at he
      obtain ⟨hmem, hkey⟩ := Outbox.entry_some he
      rcases hid with hid | hqueued
      · exact hgone e hmem hid
      · exact hq ⟨e, hmem, hkey, hqueued⟩

theorem acknowledge_reconciles (hc : c.Sound) (hi : c.Indexed)
    (hg : Labels.Distinct Prod.fst Val.null s.code)
    (ha : ∀ r ∈ results, ∃ k, Answers projectId s c r k)
    (hnodup : (results.map fun r ↦ (r.entity, r.entityId)).Nodup)
    (hkeeps : ∀ r ∈ results, ∀ k, r.entity = k.1 → r.entityId = some k.2 →
      k.1.scored = true → KeepsRowCode c r k) :
    ∃ t, (acknowledgeAcceptedResults projectId results).eval c = some ((), t) ∧
      Halfway c s results results t := by
  obtain ⟨t₀, hrelease, hstart⟩ := Halfway.start hc hi ha
  obtain ⟨t, hloop, hend⟩ := Work.eval_forM_progress (f := acknowledgeResult projectId)
    (P := fun done u ↦ Halfway c s results done u) (l := results) hstart
    fun done r rest u hsplit hu ↦ by
      have hr : r ∈ results := hsplit ▸ by simp
      obtain ⟨k, hk⟩ := ha r hr
      exact hu.step hi hg hsplit hnodup hk (hkeeps r hr k hk.entity hk.entityId)
  refine ⟨t, ?_, hend⟩
  rw [acknowledgeAcceptedResults, Work.eval_writeTransaction, Work.eval_bind, hrelease,
    Option.bind_some]
  exact hloop

end Step

end Cache

/-- What the server delivers: the rows of a pull, or the accepted results of a push. -/
inductive Delivery
  | pulled (pull : Download)
  | accepted (results : List ChangeResult)

namespace Delivery

def work (projectId : Uuid) : Delivery → Work Cache Unit
  | pulled pull => Cache.applyPull pull
  | accepted results => Cache.acknowledgeAcceptedResults projectId results

def run (projectId : Uuid) (d : Delivery) (c : Cache) : Cache := (d.work projectId).after [] c

/-- The server's rows, in a form that the client can read; a batch answers one change of each
entity. -/
def Arrives (projectId : Uuid) (s : ServerRows) (c : Cache) : Delivery → Prop
  | pulled pull => fits pull.serverSequence = true ∧
      ∀ entity, ∀ record ∈ pull.ofEntity entity, Cache.Readable entity record ∧
        ∀ id, recordId record = some id → s.Sends (entity, id) record
  | accepted results => (∀ r ∈ results, ∃ k, Answers projectId s c r k) ∧
      (results.map fun r ↦ (r.entity, r.entityId)).Nodup

def applies (c : Cache) : Delivery → Set EntityKey
  | pulled pull => c.named pull
  | accepted results => c.acknowledgedRows results

def KeepsCodes (c : Cache) : Delivery → Prop
  | pulled _ => True
  | accepted results => ∀ r ∈ results, ∀ k, r.entity = k.1 → r.entityId = some k.2 →
      k.1.scored = true → c.KeepsRowCode r k

def Pulls (k : EntityKey) : Delivery → Prop
  | pulled pull => ∃ record ∈ pull.ofEntity k.1, recordId record = some k.2
  | accepted _ => False

/-- The delivery is applied, the unique index holds, its rows have the server's codes, and other
rows can only have lost theirs. -/
structure Reconciles (projectId : Uuid) (s : ServerRows) (c : Cache) (d : Delivery) : Prop where
  returned : (d.work projectId).returned [] c = true
  indexed : (d.run projectId c).Indexed
  applied : ∀ k ∈ d.applies c, (d.run projectId c).code k = s.code k
  others : ∀ k ∉ d.applies c,
    (d.run projectId c).code k = c.code k ∨ (d.run projectId c).code k = .null

structure Settles (projectId : Uuid) (s : ServerRows) (c : Cache) (d : Delivery) : Prop where
  returned : (d.work projectId).returned [] c = true
  sound : (d.run projectId c).Sound
  indexed : (d.run projectId c).Indexed
  adopts : Labels.Adopts .null s.code (d.applies c) c.code (d.run projectId c).code
  left : ∀ k, (d.run projectId c).outbox.entry k = none →
    c.outbox.entry k = none ∨ k ∈ d.applies c ∨ s.version k = none

variable {projectId : Uuid} {s : ServerRows} {c : Cache} {d : Delivery} {k : EntityKey}

theorem Settles.reconciles (h : Settles projectId s c d) : Reconciles projectId s c d :=
  ⟨h.returned, h.indexed, h.adopts.taken, h.adopts.others⟩

theorem settles_pulled {pull : Download} (hc : c.Sound) (hi : c.Indexed)
    (hg : Labels.Distinct Prod.fst Val.null s.code)
    (ha : (Delivery.pulled pull).Arrives projectId s c) :
    Settles projectId s c (.pulled pull) := by
  have hreturned : (Cache.applyPull pull).returned [] c = true :=
    Cache.applyPull_returns (fun entity record hr ↦ (ha.2 entity record hr).1) ha.1 c
  have heval : (Cache.applyPull pull).eval c = some ((), (Cache.applyPull pull).after [] c) := by
    obtain ⟨⟨⟩, hdone⟩ := Work.writeTransaction_returned hreturned
    exact hdone
  have hpulled := Cache.applyPull_pulled heval
  have hstep : Cache.Step projectId c ((Cache.applyPull pull).after [] c) :=
    ⟨.applyPull pull, [], fun _ hid ↦ (by cases hid), rfl⟩
  refine ⟨hreturned, hc.step hstep, hi.applyPull heval, Cache.pull_adopts hg (fun entity record hr
    id hid ↦ ((ha.2 entity record hr).2 id hid).code) hpulled, fun k hk ↦ Or.inl ?_⟩
  · have hsame := hpulled.outbox.refreshed.isSome_entry k
    have hk : ((Cache.applyPull pull).after [] c).outbox.entry k = none := hk
    rw [hk] at hsame
    exact Option.not_isSome_iff_eq_none.mp fun hsome ↦ by cases hsame.trans hsome

theorem settles_accepted {results : List ChangeResult} (hc : c.Sound) (hi : c.Indexed)
    (hg : Labels.Distinct Prod.fst Val.null s.code)
    (ha : (Delivery.accepted results).Arrives projectId s c)
    (hk : (Delivery.accepted results).KeepsCodes c) :
    Settles projectId s c (.accepted results) := by
  obtain ⟨t, ht, hend⟩ := Cache.acknowledge_reconciles hc hi hg ha.1 ha.2 hk
  have hdone : (Cache.acknowledgeAcceptedResults projectId results).returned [] c = true ∧
      (Cache.acknowledgeAcceptedResults projectId results).after [] c = t :=
    Work.writeTransaction_completed ht
  have hrun : (Delivery.accepted results).run projectId c = t := hdone.2
  refine ⟨hdone.1, hrun ▸ hend.sound, ?_, ?_, ?_⟩
  · rw [hrun]
    exact ⟨hend.keys, hend.codes ▸ hi.codes.assign_release hg Cache.acknowledgedRows_subset⟩
  · rw [hrun, hend.codes]
    refine Labels.adopts_assign_release hg fun k ⟨r, hr, hb⟩ hpassed ↦ ?_
    cases hs : k.1.scored with
    | false => exact if_neg (by rw [hs]; decide)
    | true =>
      refine (hk r hr k hb.entity hb.entityId hs).passed hb fun hawaits ↦ ?_
      exact hpassed ⟨r, hr, hb, hawaits⟩
  · rw [hrun]
    exact hend.left

theorem settles (hc : c.Sound) (hi : c.Indexed) (hg : Labels.Distinct Prod.fst Val.null s.code)
    (ha : d.Arrives projectId s c) (hk : d.KeepsCodes c) : Settles projectId s c d := by
  cases d with
  | pulled pull => exact settles_pulled hc hi hg ha
  | accepted results => exact settles_accepted hc hi hg ha hk

end Delivery

structure Arrival where
  time : ℕ
  delivery : Delivery

section Run

variable (projectId : Uuid)

def Along (P : Cache → Arrival → Prop) : Cache → List Arrival → Prop
  | _, [] => True
  | c, a :: arrivals => P c a ∧ Along P (a.delivery.run projectId c) arrivals

def afterAll (c : Cache) (arrivals : List Arrival) : Cache :=
  arrivals.foldl (fun c a ↦ a.delivery.run projectId c) c

variable (h : History)

/-- The answers of one server, in the order in which it gave them. -/
structure Served (c : Cache) (arrivals : List Arrival) : Prop where
  order : arrivals.Pairwise fun a b ↦ a.time ≤ b.time
  arrives : Along projectId (fun c a ↦ a.delivery.Arrives projectId (h.rows a.time) c) c arrivals

/-- Every delivery is reconciled; and a row that has been pulled at its current version, and has no
open entry, has the server's code. -/
structure Reconciled (c : Cache) (arrivals : List Arrival) : Prop where
  each : Along projectId (fun c a ↦ a.delivery.Reconciles projectId (h.rows a.time) c) c arrivals
  converged : ∀ now, (∀ a ∈ arrivals, a.time ≤ now) → ∀ k,
    (afterAll projectId c arrivals).outbox.entry k = none →
    (∃ a ∈ arrivals, a.delivery.Pulls k ∧ (h.rows a.time).version k = (h.rows now).version k) →
    (afterAll projectId c arrivals).code k = (h.rows now).code k

end Run

section Convergence

variable {projectId : Uuid} {h : History} {c : Cache} {arrivals : List Arrival} {now time : ℕ}
  {k : EntityKey} {v : ℤ}

theorem History.code_eq (hle : time ≤ now) (hv : (h.rows time).version k = some v)
    (hnow : (h.rows now).version k = some v) : (h.rows now).code k = (h.rows time).code k := by
  obtain ⟨v', hv', hlt | ⟨-, hsame⟩⟩ := h.advances hle hv
  · obtain rfl : v' = v := Option.some.inj (hv'.symm.trans hnow)
    omega
  · exact hsame

theorem History.between {later : ℕ} (hle : time ≤ later) (hlast : later ≤ now)
    (hv : (h.rows time).version k = some v) (hnow : (h.rows now).version k = some v) :
    (h.rows later).version k = some v := by
  obtain ⟨v₁, hv₁, hstep⟩ := h.advances hle hv
  obtain ⟨v₂, hv₂, hstep'⟩ := h.advances hlast hv₁
  obtain rfl : v₂ = v := Option.some.inj (hv₂.symm.trans hnow)
  obtain rfl : v₁ = v₂ := by omega
  exact hv₁

def Right (h : History) (now : ℕ) (c : Cache) (k : EntityKey) : Prop :=
  (c.outbox.entry k).isSome = true ∨ c.code k = (h.rows now).code k

theorem Delivery.Settles.right {d : Delivery}
    (hd : Delivery.Settles projectId (h.rows time) c d) (hle : time ≤ now)
    (hv : (h.rows time).version k = some v) (hnow : (h.rows now).version k = some v)
    (hright : Right h now c k ∨ d.Pulls k) : Right h now (d.run projectId c) k := by
  have hcode := History.code_eq hle hv hnow
  cases hopen : (d.run projectId c).outbox.entry k with
  | some e => exact Or.inl (by rw [hopen]; rfl)
  | none =>
    refine Or.inr ?_
    rw [hcode]
    rcases hd.left k hopen with hnone | hin | hgone
    · rcases hright with (hsome | hsame) | hpulls
      · rw [hnone] at hsome
        cases hsome
      · exact hd.adopts.kept k (hsame.trans hcode)
      · cases d with
        | pulled pull => exact hd.adopts.taken k ⟨hnone, hpulls⟩
        | accepted results => cases hpulls
    · exact hd.adopts.taken k hin
    · cases hv.symm.trans hgone

/-- Along a run, by induction on what is still to arrive: a right row stays right, and a pull of
the current version makes it right. -/
theorem right_afterAll (hc : c.Sound) (hi : c.Indexed) (hs : Served projectId h c arrivals)
    (hk : Along projectId (fun c a ↦ a.delivery.KeepsCodes c) c arrivals)
    (hlast : ∀ a ∈ arrivals, a.time ≤ now) (hnow : (h.rows now).version k = some v)
    (hstart : (Right h now c k ∧ ∀ a ∈ arrivals, (h.rows a.time).version k = some v) ∨
      ∃ a ∈ arrivals, a.delivery.Pulls k ∧ (h.rows a.time).version k = some v) :
    Right h now (afterAll projectId c arrivals) k := by
  induction arrivals generalizing c with
  | nil =>
    rcases hstart with ⟨hright, -⟩ | ⟨a, ha, -⟩
    · exact hright
    · cases ha
  | cons a arrivals ih =>
    obtain ⟨horder, hrest⟩ := List.pairwise_cons.mp hs.order
    have hsettles := Delivery.settles hc hi (h.distinct a.time) hs.arrives.1 hk.1
    have hle := hlast a List.mem_cons_self
    refine ih hsettles.sound hsettles.indexed ⟨hrest, hs.arrives.2⟩ hk.2
      (fun b hb ↦ hlast b (List.mem_cons_of_mem a hb)) ?_
    rcases hstart with ⟨hright, hall⟩ | ⟨b, hb, hpulls, hv⟩
    · refine Or.inl ⟨hsettles.right hle (hall a List.mem_cons_self) hnow (Or.inl hright), ?_⟩
      exact fun b hb ↦ hall b (List.mem_cons_of_mem a hb)
    · rcases List.mem_cons.mp hb with rfl | hb
      · refine Or.inl ⟨hsettles.right hle hv hnow (Or.inr hpulls), fun b' hb' ↦ ?_⟩
        exact History.between (horder b' hb') (hlast b' (List.mem_cons_of_mem b hb')) hv hnow
      · exact Or.inr ⟨b, hb, hpulls, hv⟩

theorem reconciles_along (hc : c.Sound) (hi : c.Indexed) (hs : Served projectId h c arrivals)
    (hk : Along projectId (fun c a ↦ a.delivery.KeepsCodes c) c arrivals) :
    Along projectId (fun c a ↦ a.delivery.Reconciles projectId (h.rows a.time) c) c arrivals := by
  induction arrivals generalizing c with
  | nil => trivial
  | cons a arrivals ih =>
    have hsettles := Delivery.settles hc hi (h.distinct a.time) hs.arrives.1 hk.1
    refine ⟨hsettles.reconciles, ih hsettles.sound hsettles.indexed ⟨?_, hs.arrives.2⟩ hk.2⟩
    exact (List.pairwise_cons.mp hs.order).2

theorem Delivery.Arrives.version {d : Delivery} {s : ServerRows} (ha : d.Arrives projectId s c)
    (hpulls : d.Pulls k) : ∃ v, s.version k = some v := by
  cases d with
  | pulled pull =>
    obtain ⟨record, hr, hid⟩ := hpulls
    exact ⟨_, ((ha.2 k.1 record hr).2 k.2 hid).version⟩
  | accepted results => cases hpulls

theorem Along.of_mem {P : Cache → Arrival → Prop} {a : Arrival} (hP : Along projectId P c arrivals)
    (ha : a ∈ arrivals) : ∃ c, P c a := by
  induction arrivals generalizing c with
  | nil => cases ha
  | cons b arrivals ih =>
    rcases List.mem_cons.mp ha with rfl | ha
    · exact ⟨c, hP.1⟩
    · exact ih hP.2 ha

/-- From any local store, whatever moves the codes make on the server: when every acknowledgement
keeps the codes, all deliveries are applied under the unique index and the codes converge. -/
theorem codes_reconciled (hc : c.Sound) (hi : c.Indexed) (hs : Served projectId h c arrivals)
    (hk : Along projectId (fun c a ↦ a.delivery.KeepsCodes c) c arrivals) :
    Reconciled projectId h c arrivals := by
  refine ⟨reconciles_along hc hi hs hk, fun now hlast k hopen ⟨a, ha, hpulls, hversion⟩ ↦ ?_⟩
  obtain ⟨c₀, harrives⟩ := hs.arrives.of_mem ha
  obtain ⟨v, hv⟩ := harrives.version hpulls
  have hright := right_afterAll hc hi hs hk hlast (hversion.symm.trans hv)
    (Or.inr ⟨a, ha, hpulls, hv⟩)
  rcases hright with hsome | hsame
  · rw [hopen] at hsome
    cases hsome
  · exact hsame

end Convergence

section Sample

def twoRisks (v₁ : ℤ) (code₁ : String) (v₂ : ℤ) (code₂ : String) : ServerRows where
  version k := if k = (.risk, 1) then some v₁ else if k = (.risk, 2) then some v₂ else none
  code k := if k = (.risk, 1) then .str code₁ else if k = (.risk, 2) then .str code₂ else .null

theorem twoRisks_distinct (v₁ v₂ : ℤ) {code₁ code₂ : String} (hne : code₁ ≠ code₂) :
    Labels.Distinct Prod.fst Val.null (twoRisks v₁ code₁ v₂ code₂).code := by
  intro j k _ he hnull
  simp only [twoRisks] at he hnull
  split at he
  · rename_i hj
    split at he
    · rename_i hk
      exact hj.trans hk.symm
    · split at he
      · exact absurd (Val.str.inj he) hne
      · cases he
  · rename_i hj
    rw [if_neg hj] at hnull
    split at he
    · rename_i hj'
      split at he
      · exact absurd (Val.str.inj he).symm hne
      · split at he
        · rename_i hk
          exact hj'.trans hk.symm
        · cases he
    · rename_i hj'
      rw [if_neg hj'] at hnull
      exact absurd rfl hnull

def changedOnce (v₁ v₂ : ℤ) (code₁ code₂ code₁' code₂' : String) (hne : code₁ ≠ code₂)
    (hne' : code₁' ≠ code₂') : History where
  rows time := if time = 0 then twoRisks v₁ code₁ v₂ code₂
    else twoRisks (v₁ + 1) code₁' (v₂ + 1) code₂'
  distinct time := by
    split
    · exact twoRisks_distinct v₁ v₂ hne
    · exact twoRisks_distinct (v₁ + 1) (v₂ + 1) hne'
  advances {time later k v} hle hv := by
    by_cases hsame : (time = 0 ↔ later = 0)
    · refine ⟨v, ?_, Or.inr ⟨rfl, ?_⟩⟩
      · simpa only [hsame] using hv
      · simp only [hsame]
    · have htime : time = 0 := by omega
      have hlater : later ≠ 0 := by omega
      rw [if_pos htime] at hv
      rw [if_neg hlater]
      simp only [twoRisks] at hv ⊢
      split at hv
      · rename_i hk
        obtain rfl := Option.some.inj hv
        exact ⟨v₁ + 1, if_pos hk, Or.inl (lt_add_one v₁)⟩
      · rename_i hk
        split at hv
        · rename_i hk'
          obtain rfl := Option.some.inj hv
          exact ⟨v₂ + 1, (if_neg hk).trans (if_pos hk'), Or.inl (lt_add_one v₂)⟩
        · cases hv

def sentRisk (id : Uuid) (version : ℕ) (code : String) : Dict :=
  .ofList [(.id, .uuid id), (.projectId, .uuid 9), (.code, .str code), (.version, .int version)]

def riskAnswer (changeId id : Uuid) (version : ℕ) (code : String) : ChangeResult where
  changeId := changeId
  status := .accepted
  replayed := false
  entity := .risk
  op := .upsert
  entityId := some id
  body := { serverVersion := some (some version),
            serverRecord := some (some (sentRisk id version code)) }

def localRisk (id : Uuid) (code : String) : CachedRow :=
  ⟨⟨.risk, id, 1, false⟩, false, .ofList [(.code, .str code)]⟩

def newerEntry (changeId id : Uuid) : Entry :=
  (LocalStore.draft (.risk, id) .upsert (some 1) (.ofList [(.id, .uuid id)]) ⟨changeId, 10⟩).entry
    (some 1)

def localRisks (code₁ code₂ : String) (outbox : Outbox) : Cache where
  rows := [localRisk 1 code₁, localRisk 2 code₂]
  outbox := outbox

theorem localRisks_code (code₁ code₂ : String) (outbox : Outbox) :
    (localRisks code₁ code₂ outbox).code = (twoRisks 1 code₁ 1 code₂).code := by
  funext k
  by_cases h₁ : k = (.risk, 1)
  · subst h₁
    rfl
  · by_cases h₂ : k = (.risk, 2)
    · subst h₂
      rfl
    · have hnone : (localRisks code₁ code₂ outbox).row k = none := by
        refine (Table.find_eq_none CachedRow.key).mpr fun r hr ↦ ?_
        simp only [localRisks, List.mem_cons, List.not_mem_nil, or_false] at hr
        rcases hr with rfl | rfl
        · exact Ne.symm h₁
        · exact Ne.symm h₂
      rw [Cache.code, hnone, rowCode_none]
      simp only [twoRisks, if_neg h₁, if_neg h₂]

theorem localRisks_indexed {code₁ code₂ : String} (outbox : Outbox) (hne : code₁ ≠ code₂) :
    (localRisks code₁ code₂ outbox).Indexed := by
  refine ⟨?_, localRisks_code code₁ code₂ outbox ▸ twoRisks_distinct 1 1 hne⟩
  have hkeys : (localRisks code₁ code₂ outbox).rows.map CachedRow.key = [(.risk, 1), (.risk, 2)] :=
    rfl
  rw [hkeys]
  decide

theorem sentRisk_readable (id : Uuid) {version : ℕ} (code : String)
    (hfits : fits version = true) : Cache.Readable .risk (sentRisk id version code) := by
  have hversion : (sentRisk id version code).get .version = .int version := rfl
  refine ⟨rfl, fun h ↦ (by cases h), fun h ↦ (by cases h), ?_, fun _ ↦ rfl,
    fun _ _ columns hcolumns ↦ ?_⟩
  · rw [versionOf_int hversion]
    rfl
  · obtain rfl := Option.some.inj hcolumns
    have hrow : fits (pulledVersion .risk (sentRisk id version code)) = true := by
      rwa [pulledVersion_int .risk hversion]
    exact Bool.and_eq_true_iff.mpr ⟨hrow, rfl⟩

theorem riskAnswer_answers {s : ServerRows} {c : Cache} {changeId id : Uuid} {version : ℕ}
    {code : String} (hfits : fits version = true)
    (howner : ∀ e ∈ c.outbox, e.changeId = changeId → e.key = (.risk, id))
    (hversion : s.version (.risk, id) = some version)
    (hcode : normText (.str code) = s.code (.risk, id)) :
    Answers 9 s c (riskAnswer changeId id version code) (.risk, id) := by
  refine ⟨rfl, rfl, rfl, howner, fun record hrecord ↦ ?_, fun hnone ↦ by cases hnone⟩
  obtain rfl : sentRisk id version code = record := Option.some.inj hrecord
  have hread : recordVersion (sentRisk id version code) = version := recordVersion_int rfl
  refine ⟨?_, sentRisk_readable id code hfits,
    ⟨hread.symm ▸ hversion, hcode, Or.inr ⟨code, rfl⟩⟩, fun v hv ↦ ?_⟩
  · simp [LocalStore.checkAckIdentity, sentRisk, Dict.get, Dict.ofList, Dict.set]
  · exact (Option.some.inj hv).symm.trans hread.symm

/-- The server swaps the codes of the two risks; the first is being edited. -/
def codeSwap : History := changedOnce 1 1 "R-001" "R-002" "R-002" "R-001" (by decide) (by decide)

def editedRisks : Cache := localRisks "R-001" "R-002" [newerEntry 12 1]

def swapPull : Download where
  records key := if key = .risks then [sentRisk 2 2 "R-001"] else []
  serverSequence := 4

def swapArrivals : List Arrival :=
  [⟨1, .accepted [riskAnswer 11 1 2 "R-002"]⟩, ⟨1, .pulled swapPull⟩]

theorem newerEntries_sound {code₁ code₂ : String} {outbox : Outbox}
    (hd : outbox.Distinct) (h : ∀ e ∈ outbox, e.op = .upsert ∧
      (e.key = (.risk, 1) ∨ e.key = (.risk, 2))) : (localRisks code₁ code₂ outbox).Sound := by
  refine ⟨hd, fun e he ↦ ?_⟩
  obtain ⟨hop, hkey | hkey⟩ := h e he
  · refine ⟨(localRisk 1 code₁).toLocalRow, ?_, fun hdelete ↦ by cases hop.symm.trans hdelete⟩
    rw [hkey]
    rfl
  · refine ⟨(localRisk 2 code₂).toLocalRow, ?_, fun hdelete ↦ by cases hop.symm.trans hdelete⟩
    rw [hkey]
    rfl

theorem codes_reconciled_sample : Reconciled 9 codeSwap editedRisks swapArrivals ∧
    (afterAll 9 editedRisks swapArrivals).code (.risk, 1) = .str "R-002" ∧
    (afterAll 9 editedRisks swapArrivals).code (.risk, 2) = .str "R-001" := by
  have hsound : editedRisks.Sound := by
    refine newerEntries_sound ⟨by decide, by decide⟩ fun e he ↦ ?_
    rw [List.mem_singleton.mp he]
    exact ⟨rfl, Or.inl rfl⟩
  have hserved : Served 9 codeSwap editedRisks swapArrivals := by
    refine ⟨by decide, ⟨fun r hr ↦ ⟨(.risk, 1), ?_⟩, by decide⟩,
      ⟨by decide, fun entity record hr ↦ ?_⟩, trivial⟩
    · rw [List.mem_singleton.mp hr]
      refine riskAnswer_answers (by decide) (fun e he hid ↦ ?_) rfl (by decide)
      rw [List.mem_singleton.mp he]
      rfl
    · cases entity with
      | risk =>
        obtain rfl : record = sentRisk 2 2 "R-001" := List.mem_singleton.mp hr
        refine ⟨sentRisk_readable 2 "R-001" (by decide), fun id hid ↦ ?_⟩
        obtain rfl : 2 = id := Option.some.inj hid
        exact ⟨rfl, by decide, Or.inr ⟨_, rfl⟩⟩
      | _ => cases hr
  have hkeeps : Along 9 (fun c a ↦ a.delivery.KeepsCodes c) editedRisks swapArrivals := by
    refine ⟨fun r hr k hentity hid _ ↦ ?_, trivial, trivial⟩
    obtain rfl := List.mem_singleton.mp hr
    obtain rfl : (.risk, 1) = k := Prod.ext hentity (Option.some.inj hid)
    refine ⟨fun record e hrecord _ _ _ ↦ ?_, fun _ hnot ↦ ?_⟩
    · obtain rfl : sentRisk 1 2 "R-002" = record := Option.some.inj hrecord
      decide
    · exact absurd ⟨newerEntry 12 1, rfl, Or.inr rfl⟩ hnot
  exact ⟨codes_reconciled hsound (localRisks_indexed _ (by decide)) hserved hkeeps, by decide,
    by decide⟩

/-- A code that the server holds with a leading blank moves from one risk to the other, while both
are being edited. -/
def blankMoves : History := changedOnce 1 2 "R-001" "R-002" "R-002" "R-009" (by decide) (by decide)

def bothEdited : Cache := localRisks "R-001" "R-005" [newerEntry 12 1, newerEntry 22 2]

def blankArrivals : List Arrival :=
  [⟨0, .accepted [riskAnswer 21 2 2 " R-002"]⟩, ⟨1, .accepted [riskAnswer 11 1 2 " R-002"]⟩]

/-- The second acknowledgement releases the trimmed code, which no row has, and fails on the other
row that has the code with the blank. -/
theorem untrimmed_code_not_reconciled : bothEdited.Sound ∧ bothEdited.Indexed ∧
    Served 9 blankMoves bothEdited blankArrivals ∧
    ¬ Reconciled 9 blankMoves bothEdited blankArrivals := by
  refine ⟨?_, localRisks_indexed _ (by decide), ⟨by decide, ?_, ?_, trivial⟩, fun h ↦ ?_⟩
  · refine newerEntries_sound ⟨by decide, by decide⟩ fun e he ↦ ?_
    simp only [List.mem_cons, List.not_mem_nil, or_false] at he
    rcases he with rfl | rfl
    · exact ⟨rfl, Or.inl rfl⟩
    · exact ⟨rfl, Or.inr rfl⟩
  · refine ⟨fun r hr ↦ ⟨(.risk, 2), ?_⟩, by decide⟩
    rw [List.mem_singleton.mp hr]
    exact riskAnswer_answers (by decide) (by decide) rfl (by decide)
  · refine ⟨fun r hr ↦ ⟨(.risk, 1), ?_⟩, by decide⟩
    rw [List.mem_singleton.mp hr]
    exact riskAnswer_answers (by decide) (by decide) rfl (by decide)
  · have hreturned := h.each.2.1.returned
    have hfails : ((Delivery.accepted [riskAnswer 11 1 2 " R-002"]).work 9).returned []
        ((Delivery.accepted [riskAnswer 21 2 2 " R-002"]).run 9 bothEdited) = false := by decide
    cases hreturned.symm.trans hfails

end Sample

end RiskApp.Client

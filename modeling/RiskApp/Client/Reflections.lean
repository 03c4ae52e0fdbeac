import RiskApp.Client.Superseded

namespace RiskApp.Client

open Lib Server

structure Held where
  row : Option CachedRow
  entry : Option Entry

def Cache.held (c : Cache) (k : EntityKey) : Held := ⟨c.row k, c.outbox.entry k⟩

def gives (result : ChangeResult) (code : Val) : Bool :=
  code ≠ .null && (serverRecord result).any fun record ↦ normText (record.get .code) = code

/-- What one result makes of an entity: its own change is answered, a newer one follows the answer,
and the answer of another entity takes at most the code of the row. -/
inductive Reflects (projectId : Uuid) (result : ChangeResult) (k : EntityKey) : Held → Held → Prop
  | refused {h : Held} (status : result.status ≠ .accepted) : Reflects projectId result k h h
  | copied {o : Option CachedRow} {sent : Entry} {record : Dict} {r : CachedRow}
      (accepted : result.status = .accepted) (own : sent.changeId = result.changeId)
      (state : serverRecord result = some record)
      (mirrors : Cache.Mirrors k (ackRecord projectId k record) r) :
      Reflects projectId result k ⟨o, some sent⟩ ⟨some r, none⟩
  | versioned {o : Option CachedRow} {sent : Entry} {v : ℤ}
      (accepted : result.status = .accepted) (own : sent.changeId = result.changeId)
      (state : serverRecord result = none) (version : serverVersion result = some v) :
      Reflects projectId result k ⟨o, some sent⟩ ⟨o.map (Cache.versionedRow v), none⟩
  | removed {o : Option CachedRow} {sent : Entry} (accepted : result.status = .accepted)
      (own : sent.changeId = result.changeId) (state : serverRecord result = none)
      (version : serverVersion result = none) :
      Reflects projectId result k ⟨o, some sent⟩ ⟨o, none⟩
  | advanced {o : Option CachedRow} {e : Entry} (accepted : result.status = .accepted)
      (newer : e.changeId ≠ result.changeId) (entity : result.entity = k.1)
      (entityId : result.entityId = some k.2) (queued : e.queued = true) :
      Reflects projectId result k ⟨o, some e⟩
        ⟨o.map (Cache.advanceRow (advancedVersion result) (followedCode k.1 result)),
          some (e.advanced (LocalStore.advancedBase e.baseVersion (acknowledgedVersion result))
            (LocalStore.withServerCode k.1 e.record (serverRecord result)))⟩
  | apart {h : Held} {row : Option CachedRow} (accepted : result.status = .accepted)
      (other : ∀ e, h.entry = some e → e.changeId ≠ result.changeId ∧
        (result.entity = k.1 → result.entityId = some k.2 → e.queued = false))
      (code : row = h.row ∨ row = h.row.map (Cache.losing (gives result))) :
      Reflects projectId result k h ⟨row, h.entry⟩

def AllReflected (projectId : Uuid) (k : EntityKey) : List ChangeResult → Held → Held → Prop
  | [], h, h' => h' = h
  | result :: results, h, h' =>
    ∃ h₁, Reflects projectId result k h h₁ ∧ AllReflected projectId k results h₁ h'

namespace Cache

variable {projectId : Uuid} {c c' t t' : Cache} {k : EntityKey} {result : ChangeResult}

theorem entry_deleteOutboxIds_self {o : Outbox} {sent : Entry} (hd : o.Distinct)
    (hsent : sent ∈ o) : (o.deleteOutboxIds [sent.changeId]).entry sent.key = none := by
  refine (Table.find_eq_none Entry.key).mpr fun e he hk ↦ ?_
  obtain ⟨hin, hne⟩ := List.mem_filter.mp he
  rw [hd.eq_of_key hin hsent hk] at hne
  simp at hne

theorem AcknowledgesSent.reflects {sent : Entry}
    (hack : AcknowledgesSent projectId t sent result t') (hd : t.outbox.Distinct)
    (hsent : sent ∈ t.outbox) (haccepted : result.status = .accepted)
    (hid : sent.changeId = result.changeId) :
    Reflects projectId result sent.key (t.held sent.key) (t'.held sent.key) := by
  have hbefore : t.held sent.key = ⟨t.row sent.key, some sent⟩ :=
    congrArg (Held.mk _) (hd.entry_of_mem hsent)
  have hgone := entry_deleteOutboxIds_self hd hsent
  rw [hbefore]
  cases hack with
  | @copied record columns state built =>
    have hafter : ((t.setOutbox (·.deleteOutboxIds [sent.changeId])).takeRecord sent.key
        (ackRecord projectId sent.key record) columns).held sent.key =
        ⟨some (serverRow sent.key (ackRecord projectId sent.key record) columns), none⟩ := by
      rw [held, row_takeRecord, if_pos rfl]
      exact congrArg (Held.mk _) hgone
    rw [hafter]
    exact .copied haccepted hid state (mirrors_serverRow (k := sent.key) built)
  | @versioned v state version =>
    have hafter : ((t.setOutbox (·.deleteOutboxIds [sent.changeId])).updateRows (·.key = sent.key)
        (versionedRow v)).held sent.key = ⟨(t.row sent.key).map (versionedRow v), none⟩ := by
      rw [held, row_updateRows_key _ sent.key (versionedRow_key v), if_pos rfl]
      exact congrArg (Held.mk _) hgone
    rw [hafter]
    exact .versioned haccepted hid state version
  | removed state version =>
    have hafter : (t.setOutbox (·.deleteOutboxIds [sent.changeId])).held sent.key =
        ⟨t.row sent.key, none⟩ := congrArg (Held.mk _) hgone
    rw [hafter]
    exact .removed haccepted hid state version

theorem held_advanced {e : Entry} (hd : t.outbox.Distinct) (hmem : e ∈ t.outbox)
    (base version : Option ℤ) (record : Dict) (code : Option Val) :
    ((t.setOutbox (·.update (·.changeId = e.changeId) (Entry.advanced base record))).updateRows
      (·.key = e.key) (advanceRow version code)).held e.key =
      ⟨(t.row e.key).map (advanceRow version code), some (e.advanced base record)⟩ := by
  rw [held, row_updateRows_key _ e.key (advanceRow_key version code), if_pos rfl]
  exact congrArg (Held.mk _) (Outbox.entry_update_self (fun _ ↦ rfl) (hd.entry_of_mem hmem))

theorem losing_takenBy (o : Outbox) (entity : Entity) (row : Option CachedRow) :
    row.map (losing (takenBy o entity [result])) = row ∨
      row.map (losing (takenBy o entity [result])) = row.map (losing (gives result)) := by
  cases hmine : entity.scored && (decide (result.entity = entity) &&
      o.any (·.changeId = result.changeId)) with
  | false =>
    refine Or.inl (losing_of_not (fun code ↦ ?_) row)
    simp only [takenBy, List.any_cons, List.any_nil, Bool.or_false]
    grind
  | true =>
    refine Or.inr (congrArg (Option.map · row) (congrArg losing (funext fun code ↦ ?_)))
    simp only [takenBy, gives, List.any_cons, List.any_nil, Bool.or_false]
    grind

theorem acknowledgeResult_reflects (hd : t.outbox.Distinct)
    (h : (acknowledgeResult projectId result).eval t = some ((), t')) (k : EntityKey) :
    Reflects projectId result k (t.held k) (t'.held k) := by
  by_cases haccepted : result.status = .accepted
  swap
  · have hsame : (acknowledgeResult projectId result).eval t = some ((), t) := by
      rw [acknowledgeResult, if_pos haccepted]
      rfl
    obtain rfl : t = t' := congrArg Prod.snd (Option.some.inj (hsame.symm.trans h))
    exact .refused haccepted
  -- the answer of another entity
  have hothers : (∀ e ∈ t.outbox, e.changeId = result.changeId → e.key ≠ k) →
      (∀ id, result.entityId = some id → (result.entity, id) ≠ k) →
      Reflects projectId result k (t.held k) (t'.held k) := by
    intro hsent hname
    have halone := other_result hd haccepted hsent hname h
    have hafter : t'.held k = ⟨(t.held k).row.map (losing (takenBy t.outbox k.1 [result])),
        (t.held k).entry⟩ := by
      rw [held, halone.row, halone.entry]
      rfl
    rw [hafter]
    refine .apart haccepted (fun e he ↦ ⟨fun hid ↦ ?_, fun hentity hentityId ↦ ?_⟩)
      (losing_takenBy t.outbox k.1 _)
    · obtain ⟨hmem, hkey⟩ := Outbox.entry_some he
      exact hsent e hmem hid hkey
    · exact absurd (Prod.ext hentity rfl : (result.entity, k.2) = k) (hname k.2 hentityId)
  rcases acknowledgeResult_eval hd haccepted h with ⟨sent, hmem, hid, hof, hack⟩ | ⟨hgone, hadvance⟩
  · by_cases hk : sent.key = k
    · subst hk
      exact hack.reflects hd hmem haccepted hid
    · refine hothers (fun e he hid' hkey ↦ hk ?_) fun id hentityId hkey ↦ hk ?_
      · rw [hd.eq_of_id hmem he (hid.trans hid'.symm), hkey]
      · rw [← hkey, hof.1, hof.2 id hentityId]
        rfl
  · by_cases hname : result.entity = k.1 ∧ result.entityId = some k.2
    · obtain ⟨hentity, hentityId⟩ := hname
      cases hadvance with
      | passed alone =>
        refine .apart haccepted (fun e he ↦ ?_) (Or.inl rfl)
        obtain ⟨hmem, hkey⟩ := Outbox.entry_some he
        refine ⟨hgone e hmem, fun _ _ ↦ by_contra fun hq ↦ ?_⟩
        exact alone e hmem (by simpa using hq) (hentity.trans (congrArg Prod.fst hkey).symm)
          (hentityId.trans (congrArg (fun k : EntityKey ↦ some k.2) hkey).symm)
      | @advanced e mem entity entityId queued =>
        obtain rfl : e.key = k := Prod.ext (entity.symm.trans hentity)
          (Option.some.inj (entityId.symm.trans hentityId))
        have hbefore : t.held e.key = ⟨t.row e.key, some e⟩ :=
          congrArg (Held.mk _) (hd.entry_of_mem mem)
        rw [hbefore, held_advanced hd mem]
        exact .advanced haccepted (hgone e mem) hentity hentityId queued
    · exact hothers (fun e he hid ↦ absurd hid (hgone e he)) fun id hid hkey ↦
        hname ⟨congrArg Prod.fst hkey, hid.trans (congrArg (fun k : EntityKey ↦ some k.2) hkey)⟩

theorem results_reflected {results : List ChangeResult} (hd : t.outbox.Distinct)
    (h : (results.forM (acknowledgeResult projectId)).eval t = some ((), t')) (k : EntityKey) :
    AllReflected projectId k results (t.held k) (t'.held k) := by
  induction results generalizing t with
  | nil =>
    obtain rfl : t = t' := congrArg Prod.snd (Option.some.inj h)
    rfl
  | cons result results ih =>
    obtain ⟨⟨⟩, t₁, hfirst, hrest⟩ := Work.bind_eval h
    have hd₁ : t₁.outbox.Distinct :=
      (LocalStore.acknowledgeResult_acknowledged hd (acknowledgeResult_store hd hfirst)).distinct hd
    exact ⟨t₁.held k, acknowledgeResult_reflects hd hfirst k, ih hd₁ hrest⟩

theorem acknowledgeAcceptedResults_reflected {results : List ChangeResult} (hd : c.outbox.Distinct)
    (h : (acknowledgeAcceptedResults projectId results).eval c = some ((), c')) (k : EntityKey) :
    AllReflected projectId k results
      ⟨(c.row k).map (losing (releases k results)), c.outbox.entry k⟩ (c'.held k) := by
  rw [acknowledgeAcceptedResults, Work.eval_writeTransaction] at h
  obtain ⟨⟨⟩, c₁, hrelease, hloop⟩ := Work.bind_eval h
  obtain ⟨hout, hrow⟩ := releaseScoredCodes_row (k := k) hrelease
  have hreleased : c₁.held k = ⟨(c.row k).map (losing (releases k results)), c.outbox.entry k⟩ := by
    rw [held, hrow, hout]
  have hd₁ : c₁.outbox.Distinct := hout ▸ hd
  rw [← hreleased]
  exact results_reflected hd₁ hloop k

section Resolution

variable {e : Entry} {record merged : Dict} {changeId : Uuid} {expected : Option ℤ}
  {stamp : LocalStore.Stamp}

/-- The user's side is sent again on the version that the server has. -/
structure KeptMine (c : Cache) (e : Entry) (stamp : LocalStore.Stamp) (c' : Cache) : Prop where
  rows : c'.rows = c.rows
  entry : ∃ saved r, e.outcome.serverVersion = some saved ∧ c.row e.key = some r ∧
    c'.outbox.entry e.key = some ((LocalStore.draft e.key e.op (some (max saved r.version))
      e.record stamp).entry (some (max saved r.version)))
  others : ∀ k, e.key ≠ k → c'.outbox.entry k = c.outbox.entry k
  watermark : c'.watermark = c.watermark

structure TookServer (c : Cache) (e : Entry) (record : Dict) (c' : Cache) : Prop where
  row : ∃ r, Mirrors e.key record r ∧ c'.row e.key = some r
  entry : c'.outbox.entry e.key = none
  others : ∀ k, e.key ≠ k →
    Stays k [record] (c.row k) (c'.row k) ∧ c'.outbox.entry k = c.outbox.entry k

/-- The row is the server's with the merged fields, and the entry sends them. -/
structure Merged (c : Cache) (e : Entry) (record merged : Dict) (stamp : LocalStore.Stamp)
    (c' : Cache) : Prop where
  row : ∃ r, Mirrors e.key record r ∧ c'.row e.key = some (mergedRow merged r)
  fields : ∀ r, c'.row e.key = some r → ∀ a ∈ mergeFields e.entity, merged.has a = true →
    r.columns a = merged.get a
  entry : ∃ saved, e.outcome.serverVersion = some saved ∧ recordVersion record = saved ∧
    c'.outbox.entry e.key =
      some ((LocalStore.draft e.key .upsert (some saved) merged stamp).entry (some saved))
  others : ∀ k, e.key ≠ k →
    Stays k [record] (c.row k) (c'.row k) ∧ c'.outbox.entry k = c.outbox.entry k

theorem keepMine_keptMine (h : (keepMine changeId expected stamp).eval c = some ((), c')) :
    ∃ e ∈ c.outbox, e.changeId = changeId ∧ e.inConflict = true ∧ KeptMine c e stamp c' := by
  rw [keepMine, Work.eval_writeTransaction] at h
  obtain ⟨e, he, h⟩ := requireConflict_eval h
  obtain ⟨saved, hsaved, h⟩ := ofOption_eval h
  obtain ⟨current, hcurrent, h⟩ := getVersion_eval h
  rw [eval_replaceOutboxEntry] at h
  obtain rfl : _ = c' := congrArg Prod.snd (Option.some.inj h)
  obtain ⟨hmem, hid, hconflict⟩ := Device.requireConflict_some he
  rw [store_version] at hcurrent
  obtain ⟨r, hr, rfl⟩ := Option.map_eq_some_iff.mp hcurrent
  have hentry : ∀ k, (c.outbox.insertEntry (LocalStore.draft e.key e.op
      (some (max saved r.version)) e.record stamp) (some (max saved r.version))).entry k = _ :=
    Outbox.entry_insertEntry c.outbox _ _
  refine ⟨e, hmem, hid, hconflict, rfl, ⟨saved, r, (Option.filter_eq_some_iff.mp hsaved).1, hr, ?_⟩,
    fun k hk ↦ ?_, rfl⟩
  · exact (hentry e.key).trans (if_pos rfl)
  · exact (hentry k).trans (if_neg hk)

theorem takeServerCopy_tookServer (hd : c.outbox.Distinct) (hmem : e ∈ c.outbox)
    (hid : recordId record = some e.entityId)
    (h : (takeServerCopy e record).eval c = some ((), c')) : TookServer c e record c' := by
  obtain ⟨⟨⟩, c₁, hdelete, h⟩ := Work.bind_eval h
  obtain rfl : c.setOutbox (·.deleteOutboxIds [e.changeId]) = c₁ :=
    congrArg Prod.snd (Option.some.inj hdelete)
  obtain ⟨columns, hbuilt, rfl⟩ :=
    applyPullEntities_single hid (pending_deleteOutboxIds (s := c.store) hd hmem) h
  refine ⟨⟨_, mirrors_serverRow (k := e.key) hbuilt, ?_⟩, entry_deleteOutboxIds_self hd hmem,
    fun k hk ↦ ⟨?_, entry_deleteOutboxIds hd hmem hk⟩⟩
  · exact (row_takeRecord _ e.key e.key record columns).trans (if_pos rfl)
  · exact Stays.takeRecord (t := c.setOutbox (·.deleteOutboxIds [e.changeId])) (k := e.key)
      (Or.inl rfl) hk hid hbuilt fun _ ↦ List.mem_cons_self

theorem useServer_tookServer (hd : c.outbox.Distinct)
    (h : (useServer projectId changeId expected).eval c = some ((), c')) :
    ∃ e ∈ c.outbox, e.changeId = changeId ∧ e.inConflict = true ∧
      ∃ record, LocalStore.normalizeServerRecord projectId e = some record ∧
        TookServer c e record c' ∧ c'.watermark = 0 := by
  rw [useServer, Work.eval_writeTransaction] at h
  obtain ⟨e, he, h⟩ := requireConflict_eval h
  obtain ⟨record, hrecord, h⟩ := ofOption_eval h
  obtain ⟨⟨⟩, c₁, hcopy, h⟩ := Work.bind_eval h
  obtain rfl := setSyncWatermark_eval h
  obtain ⟨hmem, hid, hconflict⟩ := Device.requireConflict_some he
  have htook :=
    takeServerCopy_tookServer hd hmem (Device.normalizeServerRecord_id hrecord) hcopy
  exact ⟨e, hmem, hid, hconflict, record, hrecord, ⟨htook.row, htook.entry, htook.others⟩, rfl⟩

theorem mergedRow_key (record : Dict) (r : CachedRow) : (mergedRow record r).key = r.key := rfl

theorem mergedRow_fields {r : CachedRow} {a : Attr} (ha : a ∈ mergeFields r.entity)
    (hhas : merged.has a = true) : (mergedRow merged r).columns a = merged.get a := by
  have hscore : ¬(a = .score ∧ r.entity = .assessment) := by
    rintro ⟨rfl, hentity⟩
    rw [hentity] at ha
    revert ha
    decide
  exact (if_neg hscore).trans (if_pos ⟨ha, hhas⟩)

theorem applyMergedFields_eval (h : (applyMergedFields k record).eval c = some ((), c')) :
    c' = c.updateRows (·.key = k) (mergedRow record) := by
  obtain ⟨-, h⟩ := require_eval h
  obtain ⟨⟨⟩, c₁, hupdate, hcommit⟩ := Work.bind_eval h
  obtain rfl : c₁ = c' := congrArg Prod.snd (Option.some.inj hcommit)
  rw [Work.eval_statement] at hupdate
  split at hupdate
  · cases hupdate
  · exact (congrArg Prod.snd (Option.some.inj hupdate)).symm

theorem merge_merged (hd : c.outbox.Distinct)
    (h : (merge projectId changeId expected merged stamp).eval c = some ((), c')) :
    ∃ e ∈ c.outbox, e.changeId = changeId ∧ e.inConflict = true ∧
      ∃ record, LocalStore.normalizeServerRecord projectId e = some record ∧
        Merged c e record (merged.set .id (.uuid e.entityId)) stamp c' ∧ c'.watermark = 0 := by
  rw [merge, Work.eval_writeTransaction] at h
  obtain ⟨e, he, h⟩ := requireConflict_eval h
  obtain ⟨record, hrecord, h⟩ := ofOption_eval h
  obtain ⟨version, hversion, h⟩ := ofOption_eval h
  obtain ⟨current, -, h⟩ := getVersion_eval h
  obtain ⟨-, h⟩ := require_eval h
  obtain ⟨⟨⟩, c₁, hcopy, h⟩ := Work.bind_eval h
  obtain ⟨⟨⟩, c₂, hfields, h⟩ := Work.bind_eval h
  rw [Work.eval_bind, eval_replaceOutboxEntry, Option.bind_some] at h
  obtain rfl := setSyncWatermark_eval h
  obtain ⟨hmem, hid, hconflict⟩ := Device.requireConflict_some he
  have htook :=
    takeServerCopy_tookServer hd hmem (Device.normalizeServerRecord_id hrecord) hcopy
  obtain rfl := applyMergedFields_eval hfields
  obtain ⟨hsaved, hchecked⟩ := Option.filter_eq_some_iff.mp hversion
  simp only [Bool.and_eq_true, decide_eq_true_eq] at hchecked
  obtain ⟨r, hmirrors, hrow⟩ := htook.row
  have hrows : ∀ k, (c₁.updateRows (·.key = e.key)
      (mergedRow (merged.set .id (.uuid e.entityId)))).row k = _ :=
    row_updateRows_key c₁ e.key (mergedRow_key _)
  have hmine := (hrows e.key).trans ((if_pos rfl).trans (congrArg (Option.map _) hrow))
  have hentry : ∀ k, (c₁.outbox.insertEntry (LocalStore.draft e.key .upsert (some version)
      (merged.set .id (.uuid e.entityId)) stamp) (some version)).entry k = _ :=
    Outbox.entry_insertEntry c₁.outbox _ _
  refine ⟨e, hmem, hid, hconflict, record, hrecord, ⟨⟨r, hmirrors, hmine⟩,
    fun r' hr' a ha hhas ↦ ?_, ⟨version, hsaved, hchecked.2, (hentry e.key).trans (if_pos rfl)⟩,
    fun k hk ↦ ⟨?_, ?_⟩⟩, rfl⟩
  · obtain rfl : _ = r' := Option.some.inj (hmine.symm.trans hr')
    have hentity : r.entity = e.entity := congrArg Prod.fst hmirrors.key
    exact mergedRow_fields (hentity ▸ ha) hhas
  · have hsame := (hrows k).trans (if_neg hk)
    exact hsame ▸ (htook.others k hk).1
  · exact ((hentry k).trans (if_neg hk)).trans (htook.others k hk).2

end Resolution

end Cache

namespace Operation

variable {projectId : Uuid} {c c' : Cache} {op : Operation}

/-- The row and the open entry of every entity that a unit of work leaves: both come from it, or
both are as they were. -/
def Reflected (projectId : Uuid) (c c' : Cache) : Operation → Prop
  | command cmd t => cmd.Reflected c t c'
  | acknowledge results => ∀ k, AllReflected projectId k results
      ⟨(c.row k).map (Cache.losing (Cache.releases k results)), c.outbox.entry k⟩ (c'.held k)
  | deleteIds ids => c'.rows = c.rows ∧
      ∀ k, c'.outbox.entry k = (c.outbox.entry k).filter (·.changeId ∉ ids)
  | markAttempted _ _ | deferId _ _ _ _ | blockId _ _ _ | releaseAuthentication =>
    c'.rows = c.rows ∧ ∀ k, Option.Rel Entry.Parks (c.outbox.entry k) (c'.outbox.entry k)
  | applyPull pull => Cache.Pulled c pull c'
  | keepMine changeId _ t => ∃ e ∈ c.outbox, e.changeId = changeId ∧ e.inConflict = true ∧
      Cache.KeptMine c e t c'
  | useServer changeId _ => ∃ e ∈ c.outbox, e.changeId = changeId ∧ e.inConflict = true ∧
      ∃ record, LocalStore.normalizeServerRecord projectId e = some record ∧
        Cache.TookServer c e record c' ∧ c'.watermark = 0
  | merge changeId _ merged t => ∃ e ∈ c.outbox, e.changeId = changeId ∧ e.inConflict = true ∧
      ∃ record, LocalStore.normalizeServerRecord projectId e = some record ∧
        Cache.Merged c e record (merged.set .id (.uuid e.entityId)) t c' ∧ c'.watermark = 0

theorem update_parks {p : Entry → Bool} {f : Entry → Entry} (hf : ∀ e : Entry, e.Parks (f e))
    (outbox : Outbox) (k : EntityKey) :
    Option.Rel Entry.Parks (outbox.entry k) ((outbox.update p f).entry k) := by
  rw [Outbox.entry_update fun e ↦ (hf e).key]
  cases outbox.entry k with
  | none => exact .none
  | some e =>
    rw [Option.map_some]
    split
    · exact .some (hf e)
    · exact .some ⟨rfl, rfl, rfl, rfl, id⟩

theorem filter_entry {outbox : Outbox} (hd : outbox.Distinct) (p : Entry → Bool) (k : EntityKey) :
    Outbox.entry (outbox.filter p) k = (outbox.entry k).filter p := by
  cases he : outbox.entry k with
  | none =>
    refine (Table.find_eq_none Entry.key).mpr fun e hmem ↦ ?_
    exact (Table.find_eq_none Entry.key).mp he e (List.mem_filter.mp hmem).1
  | some e =>
    obtain ⟨hmem, hkey⟩ := Outbox.entry_some he
    cases hp : p e with
    | true =>
      rw [Option.filter_some_pos hp, ← hkey]
      exact (hd.filter p).entry_of_mem (List.mem_filter.mpr ⟨hmem, hp⟩)
    | false =>
      rw [Option.filter_some_neg (by simp [hp])]
      refine (Table.find_eq_none Entry.key).mpr fun e' he' hkey' ↦ ?_
      obtain ⟨hmem', hp'⟩ := List.mem_filter.mp he'
      rw [hd.eq_of_key hmem' hmem (hkey'.trans hkey.symm), hp] at hp'
      cases hp'

theorem reflected (hd : c.outbox.Distinct) (h : (op.work projectId).eval c = some ((), c')) :
    op.Reflected projectId c c' := by
  cases op with
  | command cmd t =>
    by_cases hw : cmd.wired = true
    · have hwork : (command cmd t).work projectId = cmd.work t := if_pos hw
      rw [hwork] at h
      exact (Command.work_done hw h).reflected hd
    · have hwork : (command cmd t).work projectId = .raise := if_neg hw
      rw [hwork] at h
      cases h
  | acknowledge results => exact Cache.acknowledgeAcceptedResults_reflected hd h
  | deleteIds ids =>
    obtain rfl : _ = c' := congrArg Prod.snd (Option.some.inj h)
    exact ⟨rfl, filter_entry hd _⟩
  | markAttempted ids now =>
    obtain rfl : _ = c' := congrArg Prod.snd (Option.some.inj h)
    exact ⟨rfl, update_parks (Entry.parks_attempted now) c.outbox⟩
  | deferId changeId err retryAfterSeconds now =>
    rw [work, Cache.deferOutboxId, Work.eval_writeTransaction, Work.eval_bind, Work.eval_select,
      Option.bind_some] at h
    dsimp only at h
    split at h
    · obtain rfl : _ = c' := congrArg Prod.snd (Option.some.inj h)
      exact ⟨rfl, update_parks (Entry.parks_deferred err retryAfterSeconds now) c.outbox⟩
    · obtain rfl : c = c' := congrArg Prod.snd (Option.some.inj h)
      refine ⟨rfl, fun k ↦ ?_⟩
      cases c.outbox.entry k with
      | none => exact .none
      | some e => exact .some ⟨rfl, rfl, rfl, rfl, id⟩
  | blockId changeId err now =>
    obtain rfl : _ = c' := congrArg Prod.snd (Option.some.inj h)
    exact ⟨rfl, update_parks (Entry.parks_parked err now) c.outbox⟩
  | releaseAuthentication =>
    obtain rfl : _ = c' := congrArg Prod.snd (Option.some.inj h)
    exact ⟨rfl, update_parks Entry.parks_released c.outbox⟩
  | applyPull pull => exact Cache.applyPull_pulled h
  | keepMine changeId expected t => exact Cache.keepMine_keptMine h
  | useServer changeId expected => exact Cache.useServer_tookServer hd h
  | merge changeId expected merged t => exact Cache.merge_merged hd h

end Operation

/-- Whatever happened before and at whatever statement a unit of work fails, an entity has at most
one open entry, and a row and its entry change together or not at all. -/
theorem one_open_entry_committed_with_its_row {projectId : Uuid} {c : Cache}
    (h : Cache.Reaches projectId {} c) :
    (∀ k, (c.outbox.ofKey k).length ≤ 1) ∧ c.store.Paired ∧
    ∀ (op : Operation) (faults : List Fate),
      (op.work projectId).after faults c = c ∨
      ((op.work projectId).eval c = some ((), (op.work projectId).after faults c) ∧
        op.Reflected projectId c ((op.work projectId).after faults c)) := by
  have hsound := h.sound Cache.sound_empty
  refine ⟨fun k ↦ ?_, hsound.paired, fun op faults ↦ ?_⟩
  · rw [Outbox.ofKey, Table.filter_key Entry.key hsound.distinct.keys]
    cases Table.find Entry.key k c.outbox <;> simp
  · rcases op.work_after projectId faults c with hsame | hdone
    · exact Or.inl hsame
    · exact Or.inr ⟨hdone, Operation.reflected hsound.distinct hdone⟩

def serverTicket (version : ℤ) (status : String) : Dict := .ofList [(.id, .uuid 7),
  (.projectId, .uuid 1), (.title, .str "Login"), (.status, .str status), (.version, .int version)]

def ticketConflict : List Operation :=
  [.applyPull ⟨fun key ↦ if key = .helpdeskTickets then [serverTicket 1 "open"] else [], 3⟩,
    .command (.updateTicket 7 (.ofList [(.status, .str "closed")])) ⟨11, 10⟩,
    .blockId 11 ⟨.conflict, some 2, some (serverTicket 2 "in_progress")⟩ 20]

def conflictCache : Cache :=
  ticketConflict.foldl (fun c op ↦ (op.work 1).after [] c) {}

def mergedTicket : Operation :=
  .merge 11 (some 2) (.ofList [(.title, .str "Login"), (.status, .str "closed")]) ⟨12, 30⟩

theorem conflictCache_reached : Cache.Reaches 1 {} conflictCache := by
  refine ((Relation.ReflTransGen.refl.tail ⟨_, [], ?_, rfl⟩).tail ⟨_, [], ?_, rfl⟩).tail
    ⟨_, [], ?_, rfl⟩
  · intro id hid
    cases hid
  · intro id hid
    cases hid
  · intro id _ e he
    exact absurd (show e ∈ ([] : Outbox) from he) List.not_mem_nil

/-- The failing insert of the merged change leaves the conflict; otherwise the row and the new entry
are both merged. -/
theorem one_open_entry_committed_with_its_row_sample :
    conflictCache.outbox.length = 1 ∧ (∀ k, (conflictCache.outbox.ofKey k).length ≤ 1) ∧
    ((mergedTicket.work 1).after (List.replicate 8 .returns ++ [.fails]) conflictCache).outbox.map
      Entry.changeId = [11] ∧
    ((mergedTicket.work 1).after [] conflictCache).outbox.map Entry.changeId = [12] ∧
    mergedTicket.Reflected 1 conflictCache ((mergedTicket.work 1).after [] conflictCache) := by
  obtain ⟨hone, -, hboth⟩ := one_open_entry_committed_with_its_row conflictCache_reached
  have hmerged : ((mergedTicket.work 1).after [] conflictCache).outbox.map Entry.changeId = [12] :=
    by decide
  refine ⟨by decide, hone, by decide, hmerged, ?_⟩
  rcases hboth mergedTicket [] with hsame | ⟨-, hreflected⟩
  · exact absurd (hsame ▸ hmerged) (by decide)
  · exact hreflected

end RiskApp.Client

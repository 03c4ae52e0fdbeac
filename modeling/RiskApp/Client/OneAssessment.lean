import RiskApp.Server.Assessing
import RiskApp.Server.Serialize
import RiskApp.Client.Push
import RiskApp.Client.Superseded

namespace RiskApp

open Lib Server

def Client.Cache.listAssessments (c : Client.Cache) (itemType : Entity) (itemId : Uuid) :
    List Client.CachedRow :=
  c.rows.filter fun r ↦ r.entity = .assessment && !r.isDeleted &&
    r.columns .itemType = .str itemType.name &&
    (r.columns .itemId = .uuid itemId || r.columns .riskId = .uuid itemId ||
      r.columns .opportunityId = .uuid itemId)

namespace Server.Assessor

open Client

variable (a : Assessor)

def key : EntityKey := (.assessment, a.ownId)

def form (probability impact : ℤ) (notes : Val) : AssessmentForm :=
  ⟨a.itemType, a.itemId, probability, impact, notes⟩

def listed (c : Cache) : List CachedRow :=
  (c.listAssessments a.itemType a.itemId).filter (·.columns .assessorUserId = .uuid a.userId)

def lists (r : CachedRow) : Bool :=
  r.entity = .assessment && r.columns .assessorUserId = .uuid a.userId &&
    (r.columns .itemId = .uuid a.itemId || r.columns .riskId = .uuid a.itemId ||
      r.columns .opportunityId = .uuid a.itemId)

/-- The values that `SyncAssessmentRecord` admits and PostgreSQL stores. -/
def Fits (probability impact : ℤ) (notes : Val) : Prop :=
  FieldType.inScale probability = true ∧ FieldType.inScale impact = true ∧
    (notes = .null ∨ ∃ s : String, notes = .str s ∧ s.length ≤ 5000 ∧ Char.ofNat 0 ∉ s.toList)

section Form

variable {probability impact : ℤ} {notes : Val}

theorem notes_fit (h : Fits probability impact notes) :
    ∃ s : String, Val.orElse notes (.str "") = .str s ∧ s.length ≤ 5000 ∧
      Char.ofNat 0 ∉ s.toList := by
  rcases h.2.2 with rfl | ⟨s, rfl, hlen, hnul⟩
  · exact ⟨"", rfl, by decide, by decide⟩
  · unfold Val.orElse
    split
    · exact ⟨s, rfl, hlen, hnul⟩
    · exact ⟨"", rfl, by decide, by decide⟩

theorem parse_form (conv : Conv) (h : Fits probability impact notes) :
    parseRecord conv .assessment ((a.form probability impact notes).record a.ownId) =
      .ok (a.parsed probability impact (Val.orElse notes (.str ""))) := by
  obtain ⟨s, hs, hlen, -⟩ := notes_fit h
  have hscored := a.scored
  have htype : a.itemType = .risk ∨ a.itemType = .opportunity := by
    revert hscored
    cases a.itemType <;> simp [Entity.scored]
  have hfields : parseFields conv ((a.form probability impact notes).record a.ownId)
      (schema .assessment) = some [(.id, .uuid a.ownId), (.itemId, .uuid a.itemId),
        (if a.itemType = .risk then .riskId else .opportunityId, .uuid a.itemId),
        (.probability, .int probability), (.impact, .int impact), (.notes, .str s)] := by
    unfold form AssessmentForm.record schema syncAssessmentRecord
    rw [hs]
    rcases htype with htype | htype <;>
      simp [htype, parseFields, Dict.ofList, Dict.set, Dict.empty, FieldType.parse, h.1,
      h.2.1, hlen]
  unfold parseRecord parsed
  rw [hfields, hs]
  rcases htype with htype | htype <;> rw [htype] <;> rfl

theorem change_form {conv : Conv} (h : Fits probability impact notes) (changeId : Uuid)
    (base : Option ℤ) : a.Change conv
      ⟨changeId, .assessment, .upsert, base, (a.form probability impact notes).record a.ownId⟩ := by
  obtain ⟨s, hs, -, hnul⟩ := notes_fit h
  refine ⟨rfl, rfl, Edit.record_id (.upsertMyAssessment a.ownId
    (a.form probability impact notes) 0),
    probability, impact, _, a.parse_form conv h, ?_⟩
  rw [hs]
  simp [textFits, hnul]

end Form

section Rows

variable {a} {m m' : Option Uuid} {rows : List CachedRow}

theorem mem_listed {c : Cache} {r : CachedRow} (h : r ∈ a.listed c) :
    r ∈ c.rows ∧ a.lists r = true := by
  simp only [listed, Cache.listAssessments, List.mem_filter, Bool.and_eq_true] at h
  refine ⟨h.1.1, ?_⟩
  simp only [lists, Bool.and_eq_true]
  exact ⟨⟨h.1.2.1.1.1, h.2⟩, h.1.2.2⟩

/-- What the client shows of the user's assessment is under its own id, or under the server's. -/
structure Listing (a : Assessor) (m : Option Uuid) (rows : List CachedRow) : Prop where
  keys : (rows.map CachedRow.key).Nodup
  ids : ∀ r ∈ rows, a.lists r = true → r.id = a.ownId ∨ m = some r.id
  own : ∀ r ∈ rows, r.key = a.key → m = none ∨ m = some a.ownId

def Holds (a : Assessor) (rows : List CachedRow) : Prop := ∃ r ∈ rows, r.key = a.key

theorem Holds.map (h : a.Holds rows) {f : CachedRow → CachedRow} (hf : ∀ r, (f r).key = r.key) :
    a.Holds (rows.map f) := by
  obtain ⟨r, hr, hk⟩ := h
  exact ⟨f r, List.mem_map_of_mem hr, (hf r).trans hk⟩

theorem Holds.upsert (h : a.Holds rows) (r : CachedRow) :
    a.Holds (Table.upsert CachedRow.key r rows) := by
  obtain ⟨r₀, hr₀, hk⟩ := h
  by_cases hsame : r.key = a.key
  · exact ⟨r, List.mem_append_right _ (List.mem_singleton_self r), hsame⟩
  · refine ⟨r₀, List.mem_append_left _ (List.mem_filter.mpr ⟨hr₀, ?_⟩), hk⟩
    exact decide_eq_true fun he ↦ hsame (he.symm.trans hk)

theorem Listing.grow (h : a.Listing m rows) (hm : m = m' ∨ m = none ∧
    (¬ a.Holds rows ∨ m' = some a.ownId)) : a.Listing m' rows := by
  rcases hm with rfl | ⟨rfl, hm⟩
  · exact h
  · refine ⟨h.keys, fun r hr hl ↦ Or.inl ((h.ids r hr hl).resolve_right (by simp)),
      fun r hr hk ↦ ?_⟩
    rcases hm with hm | hm
    · exact absurd ⟨r, hr, hk⟩ hm
    · exact Or.inr hm

/-- The same row, up to its version, its code and whether it is to be sent. -/
structure Resembles (r r' : CachedRow) : Prop where
  key : r'.key = r.key
  columns : ∀ b, b ≠ .code → r'.columns b = r.columns b

theorem Resembles.lists {r r' : CachedRow} (h : Resembles r r') : a.lists r' = a.lists r := by
  have hentity : r'.entity = r.entity := congrArg Prod.fst h.key
  unfold Assessor.lists
  rw [hentity, h.columns _ (by decide), h.columns _ (by decide), h.columns _ (by decide),
    h.columns _ (by decide)]

theorem Resembles.choice {f : CachedRow → CachedRow} (hf : ∀ r, Resembles r (f r))
    (p : CachedRow → Bool) (r : CachedRow) : Resembles r (if p r then f r else r) := by
  split
  · exact hf r
  · exact ⟨rfl, fun _ _ ↦ rfl⟩

theorem Listing.map (h : a.Listing m rows) {p : CachedRow → Bool} {f : CachedRow → CachedRow}
    (hf : ∀ r, Resembles r (f r)) : a.Listing m (rows.map fun r ↦ if p r then f r else r) := by
  have hg := Resembles.choice hf p
  refine ⟨?_, fun r hr hl ↦ ?_, fun r hr hk ↦ ?_⟩
  · rw [List.map_map]
    exact (List.map_congr_left fun r _ ↦ (hg r).key) ▸ h.keys
  · obtain ⟨r₀, hr₀, rfl⟩ := List.mem_map.mp hr
    have hid : (if p r₀ then f r₀ else r₀).id = r₀.id := congrArg Prod.snd (hg r₀).key
    rw [hid]
    exact h.ids r₀ hr₀ ((hg r₀).lists.symm.trans hl)
  · obtain ⟨r₀, hr₀, rfl⟩ := List.mem_map.mp hr
    exact h.own r₀ hr₀ ((hg r₀).key.symm.trans hk)

theorem Listing.upsert (h : a.Listing m rows) {r : CachedRow}
    (hids : a.lists r = true → r.id = a.ownId ∨ m = some r.id)
    (hown : r.key = a.key → m = none ∨ m = some a.ownId) :
    a.Listing m (Table.upsert CachedRow.key r rows) := by
  have hmem : ∀ x ∈ Table.upsert CachedRow.key r rows, x ∈ rows ∨ x = r := fun x hx ↦
    (List.mem_append.mp hx).imp (fun hx ↦ (List.mem_filter.mp hx).1) List.mem_singleton.mp
  refine ⟨Table.nodup_upsert CachedRow.key h.keys r, fun x hx hl ↦ ?_, fun x hx hk ↦ ?_⟩
  · rcases hmem x hx with hx | rfl
    · exact h.ids x hx hl
    · exact hids hl
  · rcases hmem x hx with hx | rfl
    · exact h.own x hx hk
    · exact hown hk

theorem Listing.take (h : a.Listing m rows) {k : EntityKey} {record : Dict} {columns : Columns}
    {c : Cache} (hc : c.rows = rows)
    (hids : a.lists (Cache.serverRow k record columns) = true → k.2 = a.ownId ∨ m = some k.2)
    (hown : k = a.key → m = none ∨ m = some a.ownId) :
    a.Listing m (c.takeRecord k record columns).rows := by
  subst hc
  refine Listing.upsert (h.map fun r ↦ ?_) hids hown
  exact ⟨rfl, fun b hb ↦ Function.update_of_ne hb _ _⟩

theorem Listing.length_le (h : a.Listing m rows) {c : Cache} (hc : c.rows = rows) :
    (a.listed c).length ≤ 1 := by
  subst hc
  have hkeys : ((a.listed c).map CachedRow.key).Nodup :=
    h.keys.sublist ((List.filter_sublist.trans List.filter_sublist).map _)
  have hsame : ∀ r ∈ a.listed c, ∀ r' ∈ a.listed c, r.key = r'.key := by
    intro r hr r' hr'
    obtain ⟨hmem, hl⟩ := mem_listed hr
    obtain ⟨hmem', hl'⟩ := mem_listed hr'
    have hkey : ∀ x, a.lists x = true → x.id = a.ownId → x.key = a.key := by
      intro x hx hid
      simp only [lists, Bool.and_eq_true, decide_eq_true_eq] at hx
      exact Prod.ext hx.1.1 hid
    have hentity : r.entity = r'.entity := by
      simp only [lists, Bool.and_eq_true, decide_eq_true_eq] at hl hl'
      exact hl.1.1.trans hl'.1.1.symm
    refine Prod.ext hentity (show r.id = r'.id from ?_)
    rcases h.ids r hmem hl with hid | hid <;> rcases h.ids r' hmem' hl' with hid' | hid'
    · exact hid.trans hid'.symm
    · rcases h.own r hmem (hkey r hl hid) with hm | hm
      · cases hm.symm.trans hid'
      · exact hid.trans (Option.some.inj (hm.symm.trans hid'))
    · rcases h.own r' hmem' (hkey r' hl' hid') with hm | hm
      · cases hm.symm.trans hid
      · exact (Option.some.inj (hid.symm.trans hm)).trans hid'.symm
    · exact Option.some.inj (hid.symm.trans hid')
  by_cases hempty : a.listed c = []
  · rw [hempty]
    exact Nat.zero_le 1
  · obtain ⟨r, hr⟩ := List.exists_mem_of_ne_nil _ hempty
    exact Table.length_le_one CachedRow.key hkeys fun r' hr' ↦ hsame r' hr' r hr

end Rows

section Copies

variable {a} {m m' : Option Uuid} {record : Dict}

theorem normText_uuid {v : Val} {u : Uuid} (h : normText v = .uuid u) : v = .uuid u := by
  unfold normText at h
  split at h
  · cases h
  · split at h
    · split at h <;> cases h
    · cases v with
      | uuid => exact h
      | _ => cases h

theorem optStr_uuid {v w : Val} {u : Uuid} (h : optStr v w = .uuid u) :
    v = .uuid u ∨ w = .uuid u := by
  unfold optStr at h
  split at h
  · exact Or.inr h
  · exact Or.inl (normText_uuid h)

def Copy (a : Assessor) (m : Option Uuid) (record : Dict) : Prop :=
  ∃ d r, record = pulledRecord d .assessment r ∧ r.table = .assessments ∧
    (a.mine r = true → m = some r.id) ∧ (r.id = a.ownId → a.mine r = true)

theorem Copy.grow (h : a.Copy m record) (hm : m = m' ∨ m = none) : a.Copy m' record := by
  obtain ⟨d, r, hrecord, ht, hmine, hown⟩ := h
  refine ⟨d, r, hrecord, ht, fun hr ↦ ?_, hown⟩
  rcases hm with rfl | rfl
  · exact hmine hr
  · cases hmine hr

theorem pulled_item (d : Data) {r : Row} (ht : r.table = .assessments) {u : Uuid}
    (h : assessedItem (pulledRecord d .assessment r) = .uuid u) : r.attrs .itemId = .uuid u := by
  have hcol : Attr.itemId ∈ r.table.columns := by
    rw [ht]
    decide
  have hdict : (modelToDict r).get .itemId = r.attrs .itemId := by
    rw [Dict.get, modelToDict, if_pos hcol]
    rfl
  have hitem : (pulledRecord d .assessment r).get .itemId = r.attrs .itemId := by
    rw [pulledRecord_get d (Or.inl (by decide))]
    exact hdict
  have hout : ∀ b ∈ [Attr.riskId, .opportunityId], b ∈ outFields .assessment := by decide
  have halias : ∀ b ∈ [Attr.riskId, .opportunityId], ∀ u : Uuid,
      (pulledRecord d .assessment r).get b = .uuid u → r.attrs .itemId = .uuid u := by
    intro b hb u hu
    rw [pulledRecord_get d (Or.inl (hout b hb))] at hu
    have hsync : modelToSyncDict d .assessment r =
        withItemAliases (modelToDict r) (d.itemType ((modelToDict r).get .itemId)) := rfl
    rw [hsync, withItemAliases, hdict] at hu
    generalize d.itemType (r.attrs .itemId) = itemType at hu
    simp only [List.mem_cons, List.not_mem_nil, or_false] at hb
    rcases hb with rfl | rfl
    · by_cases htype : itemType = .str "risk" <;> simp [Dict.get, Dict.set, htype] at hu
      exact hu
    · by_cases htype : itemType = .str "opportunity" <;> simp [Dict.get, Dict.set, htype] at hu
      exact hu
  rcases optStr_uuid h with h | h
  · exact hitem.symm.trans h
  · rcases optStr_uuid h with h | h
    · exact halias .riskId (by decide) u h
    · rcases optStr_uuid h with h | h
      · exact halias .opportunityId (by decide) u h
      · cases h

theorem pulled_lists (d : Data) {r : Row} (ht : r.table = .assessments) {id : Uuid}
    {itemType : Entity} (h : a.lists (Cache.serverRow (.assessment, id)
    (pulledRecord d .assessment r)
      (pulledAssessment (pulledRecord d .assessment r) itemType)) = true) : a.mine r = true := by
  simp only [lists, Bool.and_eq_true, Bool.or_eq_true, decide_eq_true_eq] at h
  obtain ⟨⟨-, huser⟩, hitem⟩ := h
  have hassessor : (pulledRecord d .assessment r).get .assessorUserId =
      r.attrs .assessorUserId := by
    rw [pulledRecord_get d (Or.inl (by decide)), Dict.get, modelToSyncDict_column d
      (by rw [ht]; decide) (by decide) (by decide)]
    rfl
  refine mine_iff.mpr ⟨ht, pulled_item d ht ?_, ?_⟩
  · rcases hitem with (hitem | hitem) | hitem
    · exact hitem
    · have hvalue :
          (if itemType = .risk then assessedItem (pulledRecord d .assessment r) else .null) =
        .uuid a.itemId := hitem
      split at hvalue
      · exact hvalue
      · cases hvalue
    · have hvalue : (if itemType = .opportunity then assessedItem (pulledRecord d .assessment r)
        else .null) = .uuid a.itemId := hitem
      split at hvalue
      · exact hvalue
      · cases hvalue
  · rcases optStr_uuid (show optStr _ (.str "") = .uuid a.userId from huser) with huser | huser
    · exact hassessor.symm.trans huser
    · cases huser

end Copies

section Local

variable {a} {conv : Conv} {m : Option Uuid} {c c' : Cache} {id projectId : Uuid}
  {settling : Option Uuid}

/-- What a change of the outbox becomes while one of them, or none, is settled. -/
structure Follows (settling : Option Uuid) (e e' : Entry) : Prop where
  changeId : e'.changeId = e.changeId
  key : e'.key = e.key
  op : e'.op = e.op
  record : e'.record = e.record
  same : settling = none ∨ settling = some e.changeId → e'.change = e.change
  queued : settling ≠ some e.changeId → e'.queued = e.queued

def Follow (settling : Option Uuid) (o o' : Outbox) : Prop :=
  ∀ e' ∈ o', ∃ e ∈ o, Follows settling e e'

theorem Follows.refl (settling : Option Uuid) (e : Entry) : Follows settling e e :=
  ⟨rfl, rfl, rfl, rfl, fun _ ↦ rfl, fun _ ↦ rfl⟩

theorem Follow.of_subset {o o' : Outbox} (h : o' ⊆ o) : Follow settling o o' :=
  fun e he ↦ ⟨e, h he, .refl settling e⟩

theorem Follow.trans {o o' o'' : Outbox} (h : Follow settling o o') (h' : Follow settling o' o'') :
    Follow settling o o'' := by
  intro e'' he''
  obtain ⟨e', he', hf'⟩ := h' e'' he''
  obtain ⟨e, he, hf⟩ := h e' he'
  refine ⟨e, he, hf'.changeId.trans hf.changeId, hf'.key.trans hf.key, hf'.op.trans hf.op,
    hf'.record.trans hf.record, fun hid ↦ ?_, fun hid ↦ ?_⟩
  · exact (hf'.same (hf.changeId.symm ▸ hid)).trans (hf.same hid)
  · exact (hf'.queued (hf.changeId.symm ▸ hid)).trans (hf.queued hid)

theorem Follow.update {o : Outbox} {p : Entry → Bool} {f : Entry → Entry}
    (hf : ∀ e ∈ o, p e = true → Follows settling e (f e)) : Follow settling o (o.update p f) := by
  intro e' he'
  obtain ⟨e, he, ⟨hp, rfl⟩ | ⟨-, rfl⟩⟩ := Outbox.mem_update he'
  · exact ⟨e, he, hf e he hp⟩
  · exact ⟨e', he, .refl settling e'⟩

structure Local (a : Assessor) (conv : Conv) (m : Option Uuid) (c : Cache) : Prop where
  distinct : c.outbox.Distinct
  listing : a.Listing m c.rows
  own : ∀ e ∈ c.outbox, e.key = a.key
  changes : ∀ e ∈ c.outbox, a.Change conv e.change
  paired : c.outbox ≠ [] → a.Holds c.rows

theorem Local.agreed (h : a.Local conv m c) (hc : a.Holds c.rows) :
    m = none ∨ m = some a.ownId := by
  obtain ⟨r, hr, hk⟩ := hc
  exact h.listing.own r hr hk

theorem Local.follow (h : a.Local conv m c) (hd : c'.outbox.Distinct) (hl : a.Listing m c'.rows)
    (hc : a.Holds c.rows → a.Holds c'.rows) (hf : Follow settling c.outbox c'.outbox) :
    a.Local conv m c' := by
  refine ⟨hd, hl, fun e' he' ↦ ?_, fun e' he' ↦ ?_, fun hne ↦ hc (h.paired ?_)⟩
  · obtain ⟨e, he, hfollows⟩ := hf e' he'
    exact hfollows.key.trans (h.own e he)
  · obtain ⟨e, he, hfollows⟩ := hf e' he'
    have hchange := h.changes e he
    obtain ⟨hentity, hop, hnamed, hparses⟩ := hchange
    refine ⟨(congrArg Prod.fst hfollows.key).trans hentity, hfollows.op.trans hop, ?_, ?_⟩
    · exact (congrFun hfollows.record .id).trans hnamed
    · have hrecord : e'.change.record = e.change.record := hfollows.record
      rw [hrecord]
      exact hparses
  · obtain ⟨e', he'⟩ := List.exists_mem_of_ne_nil _ hne
    obtain ⟨e, he, -⟩ := hf e' he'
    exact List.ne_nil_of_mem he

structure Settled (a : Assessor) (conv : Conv) (m : Option Uuid) (settling : Option Uuid)
    (c c' : Cache) : Prop where
  kept : a.Local conv m c'
  holds : a.Holds c.rows → a.Holds c'.rows
  follow : Follow settling c.outbox c'.outbox

theorem Settled.refl (h : a.Local conv m c) : Settled a conv m settling c c :=
  ⟨h, fun hc ↦ hc, .of_subset (List.Subset.refl _)⟩

theorem Settled.trans {c'' : Cache} (h : Settled a conv m settling c c')
    (h' : Settled a conv m settling c' c'') :
    Settled a conv m settling c c'' :=
  ⟨h'.kept, h'.holds ∘ h.holds, h.follow.trans h'.follow⟩

theorem resembles_clearCode (r : CachedRow) : Resembles r (Cache.clearCode r) :=
  ⟨rfl, fun _ hb ↦ Function.update_of_ne hb _ _⟩

theorem resembles_versionedRow (v : ℤ) (r : CachedRow) : Resembles r (Cache.versionedRow v r) :=
  ⟨rfl, fun _ _ ↦ rfl⟩

theorem resembles_advanceRow (version : Option ℤ) (code : Option Val) (r : CachedRow) :
    Resembles r (Cache.advanceRow version code r) :=
  ⟨Cache.advanceRow_key version code r, fun _ hb ↦ Cache.advanceRow_columns version code r hb⟩

theorem Local.updateRows (h : a.Local conv m c) (p : CachedRow → Bool) {f : CachedRow → CachedRow}
    (hf : ∀ r, Resembles r (f r)) : Settled a conv m settling c (c.updateRows p f) := by
  have hholds : a.Holds c.rows → a.Holds (c.updateRows p f).rows := fun hc ↦
    hc.map fun r ↦ (Resembles.choice hf p r).key
  have hsame : Follow settling c.outbox (c.updateRows p f).outbox :=
    .of_subset (List.Subset.refl _)
  exact ⟨h.follow h.distinct (h.listing.map hf) hholds hsame, hholds, hsame⟩

theorem Local.setOutbox (h : a.Local conv m c) {f : Outbox → Outbox} (hd : (f c.outbox).Distinct)
    (hf : Follow settling c.outbox (f c.outbox)) : Settled a conv m settling c (c.setOutbox f) :=
  ⟨h.follow hd h.listing (fun hc ↦ hc) hf, fun hc ↦ hc, hf⟩

theorem Local.take (h : a.Local conv m c) {k : EntityKey} {record : Dict} {columns : Columns}
    (hids : a.lists (Cache.serverRow k record columns) = true → k.2 = a.ownId ∨ m = some k.2)
    (hown : k = a.key → m = none ∨ m = some a.ownId) :
    Settled a conv m settling c (c.takeRecord k record columns) := by
  have hholds : a.Holds c.rows → a.Holds (c.takeRecord k record columns).rows := by
    intro hc
    refine Holds.upsert (hc.map fun r ↦ ?_) _
    split <;> rfl
  have hsame : Follow settling c.outbox (c.takeRecord k record columns).outbox :=
    .of_subset (List.Subset.refl _)
  exact ⟨h.follow h.distinct (h.listing.take rfl hids hown) hholds hsame, hholds, hsame⟩

theorem Local.acknowledged {result : ChangeResult} (h : a.Local conv m c)
    (haccepted : result.status = .accepted) (hid : result.changeId = id)
    (heval : (Cache.acknowledgeResult projectId result).eval c = some ((), c')) :
    Settled a conv m (some id) c c' := by
  rcases Cache.acknowledgeResult_eval h.distinct haccepted heval with
    ⟨sent, hsent, -, -, hack⟩ | ⟨hgone, hadvance⟩
  · have hremoved : Settled a conv m (some id) c (c.setOutbox
      (·.deleteOutboxIds [sent.changeId])) :=
      h.setOutbox (h.distinct.filter _) (.of_subset (List.filter_sublist.subset))
    have hagreed := h.agreed (h.paired (List.ne_nil_of_mem hsent))
    cases hack with
    | copied state built =>
      refine hremoved.trans (hremoved.kept.take (fun _ ↦ Or.inl ?_) fun _ ↦ hagreed)
      exact congrArg Prod.snd (h.own sent hsent)
    | versioned state => exact hremoved.trans (hremoved.kept.updateRows _
        (resembles_versionedRow _))
    | removed state => exact hremoved
  · cases hadvance with
    | passed alone => exact .refl h
    | @advanced e mem entity entityId =>
      have hentity : e.entity = .assessment := congrArg Prod.fst (h.own e mem)
      have hrecord : LocalStore.withServerCode e.entity e.record (serverRecord result) =
          e.record := by
        rw [withServerCode_eq, hentity]
        rfl
      have hadvanced : Settled a conv m (some id) c (c.setOutbox (·.update (·.changeId = e.changeId)
          (Entry.advanced (LocalStore.advancedBase e.baseVersion (acknowledgedVersion result))
            (LocalStore.withServerCode e.entity e.record (serverRecord result))))) := by
        refine h.setOutbox (h.distinct.update (fun _ ↦ rfl) fun _ ↦ rfl)
          (.update fun e' he' hsel ↦ ?_)
        obtain rfl := h.distinct.eq_of_id he' mem (of_decide_eq_true hsel)
        refine ⟨rfl, rfl, rfl, hrecord, fun he ↦ absurd ?_ (hgone e' mem), fun _ ↦ rfl⟩
        exact (Option.some.inj (he.resolve_left (by simp))).symm.trans hid.symm
      exact hadvanced.trans (hadvanced.kept.updateRows _ (resembles_advanceRow _ _))

theorem Local.released {results : List ChangeResult} (h : a.Local conv m c)
    (heval : (Cache.releaseScoredCodes projectId results).eval c = some ((), c')) :
    Settled a conv m (some id) c c' := by
  refine Work.eval_forM_induction (P := fun _ u ↦ Settled a conv m (some id) c u)
    (Cache.releaseScoredCodes_loop heval) (.refl h) fun _ entity u u' _ hu hs ↦ ?_
  split at hs
  · obtain rfl : u = u' := congrArg Prod.snd (Option.some.inj hs)
    exact hu
  · obtain rfl : _ = u' := congrArg Prod.snd (Option.some.inj hs)
    exact hu.trans (hu.kept.updateRows _ resembles_clearCode)

def SettlesOnly (id : Uuid) : Operation → Prop
  | .acknowledge results => ∀ r ∈ results, r.status = .accepted ∧ r.changeId = id
  | .deleteIds _ => True
  | .deferId changeId _ _ _ => changeId = id
  | .blockId changeId _ _ => changeId = id
  | _ => False

theorem Local.settled {op : Operation} (h : a.Local conv m c) (hop : SettlesOnly id op)
    (heval : (op.work projectId).eval c = some ((), c')) : Settled a conv m (some id) c c' := by
  cases op with
  | acknowledge results =>
    rw [Operation.work, Cache.acknowledgeAcceptedResults, Work.eval_writeTransaction] at heval
    obtain ⟨⟨⟩, c₁, hrelease, hloop⟩ := Work.bind_eval heval
    have hreleased := @Local.released a conv m c c₁ id projectId results h hrelease
    refine Work.eval_forM_induction (P := fun _ u ↦ Settled a conv m (some id) c u) hloop hreleased
      fun _ r u u' hr hu hs ↦ hu.trans ?_
    exact hu.kept.acknowledged (hop r hr).1 (hop r hr).2 hs
  | deleteIds ids =>
    obtain rfl : _ = c' := congrArg Prod.snd (Option.some.inj heval)
    exact h.setOutbox (h.distinct.filter _) (.of_subset (List.filter_sublist.subset))
  | deferId changeId err retryAfter now =>
    rw [Operation.work, Cache.deferOutboxId, Work.eval_writeTransaction] at heval
    obtain ⟨known, c₁, hknown, heval⟩ := Work.bind_eval heval
    obtain ⟨-, rfl⟩ := Prod.mk.inj (Option.some.inj hknown)
    split at heval
    · obtain rfl : _ = c' := congrArg Prod.snd (Option.some.inj heval)
      refine h.setOutbox (h.distinct.update (fun _ ↦ rfl) fun _ ↦ rfl) (.update fun e _ hsel ↦ ?_)
      obtain rfl : changeId = id := hop
      exact ⟨rfl, rfl, rfl, rfl, fun _ ↦ rfl,
        fun hne ↦ absurd (congrArg some (of_decide_eq_true hsel).symm) hne⟩
    · obtain rfl : _ = c' := congrArg Prod.snd (Option.some.inj heval)
      exact .refl h
  | blockId changeId err now =>
    obtain rfl : _ = c' := congrArg Prod.snd (Option.some.inj heval)
    refine h.setOutbox (h.distinct.update (fun _ ↦ rfl) fun _ ↦ rfl) (.update fun e _ hsel ↦ ?_)
    obtain rfl : changeId = id := hop
    simp only [Bool.and_eq_true, decide_eq_true_eq] at hsel
    exact ⟨rfl, rfl, rfl, rfl, fun _ ↦ rfl, fun hne ↦ absurd (congrArg some hsel.1.symm) hne⟩
  | _ => cases hop

theorem Local.pulled {pull : Download} (h : a.Local conv m c)
    (hcopies : ∀ record ∈ pull.records .assessments, a.Copy m record)
    (heval : (Cache.applyPull pull).eval c = some ((), c')) : Settled a conv m settling c c' := by
  refine Cache.applyPull_induction (P := Settled a conv m settling c) heval (.refl h)
    (fun t w ht ↦ ?_) fun entity pendingIds record hr u u' hu hpulls ↦ hu.trans ?_
  · exact ⟨⟨ht.kept.distinct, ht.kept.listing, ht.kept.own, ht.kept.changes, ht.kept.paired⟩,
      ht.holds, ht.follow⟩
  · have hlocal := hu.kept
    cases hpulls with
    | skipped nameless => exact .refl hlocal
    | kept named pending remembered =>
      obtain ⟨hrows, -, hremembers⟩ := Cache.rememberConflict_remembers remembered
      have hrefreshed := hremembers.refreshed
      have hfollow : Follow settling u.outbox u'.outbox := by
        intro e' he'
        obtain ⟨e, he, out, rfl⟩ := hrefreshed.mem he'
        exact ⟨e, he, rfl, rfl, rfl, rfl, fun _ ↦ rfl, fun _ ↦ rfl⟩
      have hholds : a.Holds u.rows → a.Holds u'.rows := fun hc ↦ hrows ▸ hc
      exact ⟨hlocal.follow (hrefreshed.distinct hlocal.distinct) (hrows ▸ hlocal.listing) hholds
        hfollow, hholds, hfollow⟩
    | @saved rid columns named free built =>
      by_cases hentity : entity = .assessment
      · subst hentity
        obtain ⟨d, r, rfl, ht, hmine, hown⟩ := hcopies record hr
        have hget : (pulledRecord d .assessment r).get .id = .uuid r.id := by
          rw [pulledRecord_get d (Or.inl (by decide)), Dict.get, modelToSyncDict_column d
            (by rw [ht]; decide) (by decide) (by decide)]
          rfl
        have hid : r.id = rid := by
          rw [recordId, hget] at named
          exact Option.some.inj named
        obtain rfl := Option.some.inj built
        refine hlocal.take (fun hl ↦ Or.inr ?_) fun hk ↦ Or.inr ?_
        · rw [hmine (pulled_lists d ht hl), hid]
        · have hsame : r.id = a.ownId := hid.trans (congrArg Prod.snd hk)
          rw [hmine (hown hsame), hsame]
      · refine hlocal.take (fun hl ↦ absurd ?_ hentity) fun hk ↦
          absurd (congrArg Prod.fst hk) hentity
        simp only [lists, Bool.and_eq_true, decide_eq_true_eq] at hl
        exact hl.1.1

/-- What queueing an assessment does to the local side. -/
theorem Local.upserted {probability impact : ℤ} {notes : Val} {version : ℤ} {t : LocalStore.Stamp}
    (h : a.Local conv m c) (hm : m = none ∨ m = some a.ownId)
    (hfits : Fits probability impact notes)
    (hfresh : ∀ e ∈ c.outbox, e.changeId ≠ t.changeId)
    (heval : ((Command.upsertMyAssessment a.ownId (a.form probability impact notes) a.userId
      version).work t).eval c = some ((), c')) :
    a.Local conv m c' ∧ a.Holds c'.rows ∧
      ∀ e' ∈ c'.outbox, e'.changeId = t.changeId ∨ e' ∈ c.outbox ∨
      ∃ e ∈ c.outbox, e.queued = false ∧ e'.changeId = e.changeId ∧ e'.queued = false := by
  rw [Command.work, Cache.upsertMyAssessment, Work.eval_writeTransaction] at heval
  obtain ⟨⟨⟩, c₁, hrow, heval⟩ := Work.bind_eval heval
  obtain ⟨⟨⟩, c₂, hcommit, heval⟩ := Work.bind_eval heval
  obtain rfl : c₁ = c₂ := congrArg Prod.snd (Option.some.inj hcommit)
  obtain rfl := Cache.upsertRow_eval hrow
  set row := Cache.userRow (.assessment, a.ownId) version
    (savedAssessment (a.form probability impact notes) a.userId t.now)
  have hsaved : (c.saveRow row).row (.assessment, a.ownId) = some row :=
    (c.row_saveRow row _).trans (if_pos rfl)
  rw [Cache.eval_queueUpsert, hsaved] at heval
  obtain rfl : _ = c' := congrArg Prod.snd (Option.some.inj heval)
  have hlisting : a.Listing m (c.saveRow row).rows :=
    h.listing.upsert (fun _ ↦ Or.inl rfl) fun _ ↦ hm
  have hholds : a.Holds (c.saveRow row).rows :=
    ⟨row, List.mem_append_right _ (List.mem_singleton_self row), rfl⟩
  set d := LocalStore.draft (.assessment, a.ownId) .upsert
    (if 1 ≤ row.version then some row.version else none)
    ((a.form probability impact notes).record a.ownId) t
  have hcases := Outbox.replaceOutboxEntry_cases h.distinct d false
  have hinsert : ∀ base, c.outbox.replaceOutboxEntry d false = c.outbox.insertEntry d base →
      a.Local conv m ((c.saveRow row).setOutbox (·.replaceOutboxEntry d false)) ∧
        ∀ e' ∈ c.outbox.replaceOutboxEntry d false, e'.changeId = t.changeId := by
    intro base hbase
    have hmem : ∀ e' ∈ c.outbox.replaceOutboxEntry d false, e' = d.entry base := by
      intro e' he'
      rw [hbase] at he'
      rcases Outbox.mem_insertEntry he' with he' | ⟨he', hne⟩
      · exact he'
      · exact absurd (h.own e' he') hne
    refine ⟨⟨?_, hlisting, fun e' he' ↦ ?_, fun e' he' ↦ ?_, fun _ ↦ hholds⟩, fun e' he' ↦ ?_⟩
    · change (c.outbox.replaceOutboxEntry d false).Distinct
      rw [hbase]
      exact h.distinct.insertEntry base hfresh
    · rw [hmem e' he']
      rfl
    · rw [hmem e' he']
      exact a.change_form hfits _ _
    · rw [hmem e' he']
      rfl
  rcases hcases with ⟨e, he, hconflict, -, heq⟩ | ⟨e, -, -, -, heq⟩ | ⟨-, heq⟩
  · have hmem : ∀ e' ∈ c.outbox.replaceOutboxEntry d false, e' ∈ c.outbox ∨
        e' = e.rewrite d.op d.record := by
      intro e' he'
      rw [heq] at he'
      obtain ⟨e₀, he₀, ⟨hsel, rfl⟩ | ⟨-, rfl⟩⟩ := Outbox.mem_update he'
      · rw [h.distinct.eq_of_id he₀ (Outbox.entry_some he).1 (of_decide_eq_true hsel)]
        exact Or.inr rfl
      · exact Or.inl he₀
    have hin := (Outbox.entry_some he).1
    have hblocked : e.queued = false := by
      simp only [Entry.inConflict, Bool.and_eq_true, decide_eq_true_eq] at hconflict
      simp [Entry.queued, hconflict.1]
    refine ⟨⟨?_, hlisting, fun e' he' ↦ ?_, fun e' he' ↦ ?_, fun _ ↦ hholds⟩, hholds,
      fun e' he' ↦ ?_⟩
    · change (c.outbox.replaceOutboxEntry d false).Distinct
      rw [heq]
      exact h.distinct.update (fun _ ↦ rfl) fun _ ↦ rfl
    · rcases hmem e' he' with he' | rfl
      · exact h.own e' he'
      · exact h.own e hin
    · rcases hmem e' he' with he' | rfl
      · exact h.changes e' he'
      · have hform := @change_form a probability impact notes conv hfits e.changeId
          e.baseVersion
        exact ⟨congrArg Prod.fst (h.own e hin), rfl, hform.named, hform.parses⟩
    · rcases hmem e' he' with he' | rfl
      · exact Or.inr (Or.inl he')
      · exact Or.inr (Or.inr ⟨e, hin, hblocked, rfl, hblocked⟩)
  · obtain ⟨hlocal, hids⟩ := hinsert _ heq
    exact ⟨hlocal, hholds, fun e' he' ↦ Or.inl (hids e' he')⟩
  · obtain ⟨hlocal, hids⟩ := hinsert _ heq
    exact ⟨hlocal, hholds, fun e' he' ↦ Or.inl (hids e' he')⟩

end Local

section Answer

variable {now : Time} {projectId : Uuid} {b : Entry}

theorem answered_once {reply : List RawResult} {results : List ChangeResult}
    (h : validatedReply projectId [b] reply = some results) :
    results = [] ∨ ∃ r, results = [r] ∧ r.changeId = b.changeId := by
  have hids : ∀ r ∈ results, r.changeId = b.changeId := by
    intro r hr
    obtain ⟨raw, -, hread⟩ := validatedReply_mem h hr
    obtain ⟨⟨e, he, hid⟩, -⟩ := RawResult.read_some hread
    rw [List.mem_singleton.mp he] at hid
    exact hid.symm
  unfold validatedReply at h
  split at h
  · rename_i hvalid
    obtain ⟨-, hnodup, hmatch, -⟩ := hvalid
    have hall : ∀ raw ∈ reply, raw.changeId = .uuid b.changeId := by
      intro raw hraw
      obtain ⟨e, he, hid, -⟩ := hmatch raw hraw
      rwa [List.mem_singleton.mp he] at hid
    have hlength : results.length ≤ 1 := by
      obtain rfl := Option.some.inj h
      refine (List.length_filterMap_le _ _).trans ?_
      exact Table.length_le_one RawResult.changeId hnodup hall
    cases hresults : results with
    | nil => exact Or.inl rfl
    | cons r rest =>
      rw [hresults] at hlength hids
      have hrest : rest = [] := List.eq_nil_of_length_eq_zero (by simpa using hlength)
      exact Or.inr ⟨r, by rw [hrest], hids r List.mem_cons_self⟩
  · cases h

theorem answerOperations_single (answer : Except HttpFailure (List RawResult)) :
    answerOperations now projectId [b] answer = [] ∨
      ∃ op, answerOperations now projectId [b] answer = [op] ∧ SettlesOnly b.changeId op := by
  have hpark : ∀ err retryable,
      SettlesOnly b.changeId (parkFailure now b.changeId err retryable) := by
    intro err retryable
    cases retryable <;> exact rfl
  have hfail : ∀ status, ∃ op, failBatch now [b] status = [op] ∧ SettlesOnly b.changeId op :=
    fun status ↦ ⟨_, rfl, hpark _ _⟩
  unfold answerOperations
  cases answer with
  | error status => exact Or.inr (hfail status)
  | ok reply =>
    dsimp only
    split
    · exact Or.inr (hfail 0)
    · rename_i results hread
      rcases answered_once hread with rfl | ⟨r, rfl, hid⟩
      · exact Or.inl rfl
      · right
        cases hstatus : r.status with
        | accepted =>
          cases hstate : hasServerState r with
          | true =>
            refine ⟨.acknowledge [r], ?_, ?_⟩
            · simp [resultOperations, acknowledgeOperations, acknowledged, stateless,
                hstatus, hstate]
            · intro r' hr'
              rw [List.mem_singleton.mp hr']
              exact ⟨hstatus, hid⟩
          | false =>
            refine ⟨.deleteIds [r.changeId], ?_, trivial⟩
            simp [resultOperations, acknowledgeOperations, acknowledged, stateless, hstatus, hstate]
        | conflict =>
          refine ⟨blockConflict now r, ?_, hid⟩
          simp [resultOperations, acknowledgeOperations, acknowledged, stateless, hstatus]
        | error =>
          refine ⟨parkError now r, ?_, hid ▸ hpark _ _⟩
          simp [resultOperations, acknowledgeOperations, acknowledged, stateless, hstatus]

end Answer

end Server.Assessor

end RiskApp

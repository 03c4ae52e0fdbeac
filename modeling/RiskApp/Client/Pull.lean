import RiskApp.Server.Pull

namespace RiskApp.Client

open Server Lib Lib.Window

inductive PullFailure
  | http (code : HttpFailure)
  | snapshotChanged
  | stalled

structure PullState where
  cursors : PullKey → Option Cursor := fun _ ↦ none
  snapshot : Option ℕ := none
  merged : PullKey → List Row := fun _ ↦ []

def PullState.rows (st : PullState) : List Row := PullKey.all.flatMap st.merged

/-- `_next_page_cursors`: `none` after the last page. -/
def nextPageCursors (resp : PullResponse) (cursors : PullKey → Option Cursor) :
    Except PullFailure (Option (PullKey → Option Cursor)) :=
  match resp.paging with
  | none => .ok none
  | some (hasMore, next) =>
    let moreKeys := PullKey.all.filter hasMore
    if moreKeys = [] then .ok none
    else if moreKeys.any (fun k ↦ next k = [] || cursors k = some (next k)) then .error .stalled
    else .ok (some fun k ↦ if next k = [] then none else some (next k))

/-- The loop of `_pull_paginated`, with the number of its last request. The requests are answered
by `request 0`, `request 1` and so on; `none` means that the fuel did not suffice. -/
def pullPaginated (request : ℕ → (PullKey → Option Cursor) → Option ℕ →
    Except HttpFailure PullResponse) : ℕ → ℕ → PullState → Option
    (Except PullFailure (PullState × ℕ))
  | 0, _, _ => none
  | fuel + 1, i, st =>
    match request i st.cursors st.snapshot with
    | .error code => some (.error (.http code))
    | .ok resp =>
      if st.snapshot.any (· ≠ resp.serverSequence) then some (.error .snapshotChanged)
      else
        let st' := { st with
          snapshot := some resp.serverSequence
          merged := fun k ↦ st.merged k ++ resp.rows k }
        match nextPageCursors resp st.cursors with
        | .error e => some (.error e)
        | .ok none => some (.ok (st', i))
        | .ok (some cursors) => pullPaginated request fuel (i + 1) { st' with cursors := cursors }

theorem pullPaginated_mono {request : ℕ → (PullKey → Option Cursor) → Option ℕ →
    Except HttpFailure PullResponse} {fuel fuel' i : ℕ} {st : PullState}
    {result : Except PullFailure (PullState × ℕ)}
    (h : pullPaginated request fuel i st = some result) (hle : fuel ≤ fuel') :
    pullPaginated request fuel' i st = some result := by
  induction fuel generalizing fuel' i st with
  | zero => cases h
  | succ fuel ih =>
    obtain ⟨fuel'', rfl⟩ : ∃ m, fuel' = m + 1 := ⟨fuel' - 1, by omega⟩
    simp only [pullPaginated] at h ⊢
    split
    · simpa only [*] using h
    · rename_i resp hresp
      simp only [hresp] at h
      split
      · rename_i hany
        simpa only [if_pos hany] using h
      · rename_i hany
        simp only [if_neg hany] at h
        split
        · simpa only [*] using h
        · simpa only [*] using h
        · rename_i cursors hnext
          simp only [hnext] at h
          exact ih h (by omega)

def pullKey (r : Row) : Option PullKey :=
  match r.table with
  | .items => if r.attrs .type = .str "risk" then some .risks
    else if r.attrs .type = .str "opportunity" then some .opportunities else none
  | .actions => some .actions
  | .assessments => some .assessments
  | .helpdeskTickets => some .helpdeskTickets

section Feed

variable {d d' : Data} {projectId : Uuid} {r : Row} {k : PullKey}

theorem inFeed_iff (hparent : d.hasParent r) :
    inFeed d projectId r k = true ↔ d.projectOf r = some projectId ∧ pullKey r = some k := by
  cases ht : r.table with
  | items =>
    by_cases hrisk : r.attrs .type = .str "risk"
    · cases k <;> simp [inFeed, pullKey, Data.projectOf, ht, hrisk]
    · by_cases hopp : r.attrs .type = .str "opportunity"
      · cases k <;> simp [inFeed, pullKey, Data.projectOf, ht, hopp]
      · cases k <;> simp [inFeed, pullKey, Data.projectOf, ht, hrisk, hopp]
  | actions =>
    obtain ⟨i, hi, hsome⟩ := hparent (by rw [ht]; decide)
    have hjoin : d.joinsItem r = true := by simp [Data.joinsItem, hi, hsome]
    cases k <;> simp [inFeed, pullKey, Data.projectOf, ht, hjoin]
  | assessments => cases k <;> simp [inFeed, pullKey, ht]
  | helpdeskTickets => cases k <;> simp [inFeed, pullKey, Data.projectOf, ht]

theorem mem_entityFeed (hd : d.WellFormed) :
    r ∈ entityFeed d projectId k ↔
      r ∈ d.rows ∧ d.projectOf r = some projectId ∧ pullKey r = some k := by
  rw [entityFeed, List.mem_filter]
  exact and_congr_right fun hr ↦ inFeed_iff (hd.parents r hr)

theorem pullKey_isSome (hd : d.WellFormed) (hr : r ∈ d.rows) : ∃ k, pullKey r = some k := by
  unfold pullKey
  cases ht : r.table with
  | items =>
    rcases hd.types r hr ht with h | h
    · exact ⟨.risks, by simp [h]⟩
    · exact ⟨.opportunities, by simp [h]⟩
  | actions => exact ⟨.actions, rfl⟩
  | assessments => exact ⟨.assessments, rfl⟩
  | helpdeskTickets => exact ⟨.helpdeskTickets, rfl⟩

theorem window_feed_strict (hd : d.WellFormed) (lo hi : ℕ) :
    (window Row.changeSequence lo hi (entityFeed d projectId k)).Pairwise
      (fun r s ↦ r.changeSequence < s.changeSequence) := by
  refine window_strict (hd.keys.of_map _ |>.filter _) fun r hr s hs he ↦ ?_
  obtain ⟨hr, hrp, -⟩ := (mem_entityFeed hd).mp hr
  obtain ⟨hs, hsp, -⟩ := (mem_entityFeed hd).mp hs
  exact hd.distinct r hr s hs (hrp.trans hsp.symm) he

theorem mem_entityFeed_of_later (hd : d.WellFormed) (hd' : d'.WellFormed) (h : FeedStep d d')
    {n : ℕ} (hn : d.lastSequence projectId = some n) (hr : r ∈ entityFeed d' projectId k)
    (hle : r.changeSequence ≤ n) : r ∈ entityFeed d projectId k := by
  obtain ⟨hr', hp, hk⟩ := (mem_entityFeed hd').mp hr
  rcases h.stamped r hr' with hold | ⟨p, n', hp', -, -, hgt⟩
  · exact (mem_entityFeed hd).mpr ⟨hold, (h.projectOf_eq hd' hold hr').symm.trans hp, hk⟩
  · obtain rfl : p = projectId := Option.some.inj (hp'.symm.trans hp)
    have := hgt n hn
    omega

end Feed

/-- What the loop has collected of one list when its cursor stands at `c`. -/
structure Collected (d₀ d : Data) (projectId : Uuid) (since snapshot : ℕ) (k : PullKey) (c : ℕ)
    (rows : List Row) : Prop where
  lo : since ≤ c
  hi : c ≤ snapshot
  sorted : rows.Pairwise (fun r s ↦ r.changeSequence < s.changeSequence)
  bounds : ∀ r ∈ rows, since < r.changeSequence ∧ r.changeSequence ≤ c
  origin : ∀ r ∈ rows, r ∈ entityFeed d₀ projectId k
  covers : ∀ r ∈ entityFeed d projectId k, since < r.changeSequence → r.changeSequence ≤ c →
    r ∈ rows

section Collect

variable {d₀ d d' : Data} {projectId : Uuid} {since snapshot : ℕ} {k : PullKey} {c : ℕ}
  {rows : List Row}

theorem Collected.later (h : Collected d₀ d projectId since snapshot k c rows)
    (hd : d.WellFormed) (hd' : d'.WellFormed) (hstep : FeedStep d d') {n : ℕ}
    (hn : d.lastSequence projectId = some n) (hle : snapshot ≤ n) :
    Collected d₀ d' projectId since snapshot k c rows :=
  { h with
    covers := fun r hr hlo hhi ↦ h.covers r
      (mem_entityFeed_of_later hd hd' hstep hn hr (hhi.trans (h.hi.trans hle))) hlo hhi }

theorem Collected.page (h : Collected d₀ d projectId since snapshot k c rows)
    (hd₀ : d₀.WellFormed) (hd : d.WellFormed) (hstep : FeedStep d₀ d) {n : ℕ}
    (hn : d₀.lastSequence projectId = some n) (hle : snapshot ≤ n) (limit : ℕ) :
    let page := (window Row.changeSequence c snapshot (entityFeed d projectId k)).take limit
    Collected d₀ d projectId since snapshot k (cursor Row.changeSequence c page)
      (rows ++ page) := by
  intro page
  have hstrict : (window Row.changeSequence c snapshot (entityFeed d projectId k)).Pairwise
      (fun r s ↦ r.changeSequence < s.changeSequence) := window_feed_strict hd c snapshot
  have hmem : ∀ r ∈ page, r ∈ entityFeed d projectId k ∧ c < r.changeSequence ∧
      r.changeSequence ≤ snapshot := fun r hr ↦ mem_window.mp (List.mem_of_mem_take hr)
  have hpage : page.Pairwise (fun r s ↦ r.changeSequence < s.changeSequence) :=
    hstrict.sublist (List.take_sublist _ _)
  have hc : c ≤ cursor Row.changeSequence c page := lo_le_cursor fun r hr ↦ (hmem r hr).2.1
  refine ⟨h.lo.trans hc, cursor_le h.hi fun r hr ↦ (hmem r hr).2.2, ?_, fun r hr ↦ ?_,
    fun r hr ↦ ?_, fun r hr hlo hhi ↦ ?_⟩
  · refine List.pairwise_append.mpr ⟨h.sorted, hpage, fun r hr s hs ↦ ?_⟩
    exact (h.bounds r hr).2.trans_lt (hmem s hs).2.1
  · rcases List.mem_append.mp hr with hr | hr
    · exact ⟨(h.bounds r hr).1, (h.bounds r hr).2.trans hc⟩
    · exact ⟨h.lo.trans_lt (hmem r hr).2.1, le_cursor hpage hr⟩
  · rcases List.mem_append.mp hr with hr | hr
    · exact h.origin r hr
    · exact mem_entityFeed_of_later hd₀ hd hstep hn (hmem r hr).1 ((hmem r hr).2.2.trans hle)
  · rcases Nat.lt_or_ge c r.changeSequence with hcr | hcr
    · have hr' : r ∈ window Row.changeSequence c snapshot (entityFeed d projectId k) :=
        mem_window.mpr ⟨hr, hcr, hhi.trans (cursor_le h.hi fun r hr ↦ (hmem r hr).2.2)⟩
      exact List.mem_append_right _ (mem_page_of_le_cursor hstrict hr' hhi)
    · exact List.mem_append_left _ (h.covers r hr hlo hcr)

theorem Collected.complete (h : Collected d₀ d projectId since snapshot k c rows) {limit : ℕ}
    (hshort : (window Row.changeSequence c snapshot (entityFeed d projectId k)).length ≤ limit)
    {r : Row} (hr : r ∈ entityFeed d projectId k) (hlo : since < r.changeSequence)
    (hhi : r.changeSequence ≤ snapshot) :
    r ∈ rows ++ (window Row.changeSequence c snapshot (entityFeed d projectId k)).take limit := by
  rw [List.take_of_length_le hshort]
  rcases Nat.lt_or_ge c r.changeSequence with hcr | hcr
  · exact List.mem_append_right _ (mem_window.mpr ⟨hr, hcr, hhi⟩)
  · exact List.mem_append_left _ (h.covers r hr hlo hcr)

end Collect

def remaining (snapshot : ℕ) (c : PullKey → ℕ) : ℕ :=
  PullKey.all.foldr (fun k n ↦ snapshot - c k + n) 0

theorem sum_keys_lt {f g : PullKey → ℕ} (hle : ∀ k, f k ≤ g k) {k : PullKey} (hlt : f k < g k) :
    PullKey.all.foldr (fun k n ↦ f k + n) 0 < PullKey.all.foldr (fun k n ↦ g k + n) 0 := by
  have hr := hle .risks
  have ho := hle .opportunities
  have ha := hle .actions
  have hs := hle .assessments
  have ht := hle .helpdeskTickets
  simp only [PullKey.all, List.foldr_cons, List.foldr_nil]
  cases k <;> omega

theorem remaining_lt {snapshot : ℕ} {c c' : PullKey → ℕ} (hle : ∀ k, c k ≤ c' k)
    (hhi : ∀ k, c' k ≤ snapshot) {k : PullKey} (hlt : c k < c' k) :
    remaining snapshot c' < remaining snapshot c := by
  refine sum_keys_lt (fun k ↦ Nat.sub_le_sub_left (hle k) snapshot) (k := k) ?_
  have hk := hhi k
  omega

/-- Where the cursors stand after a page that starts at `c`. -/
def nextStart (d : Data) (projectId : Uuid) (snapshot limit : ℕ) (c : PullKey → ℕ) (k : PullKey) :
    ℕ :=
  cursor Row.changeSequence (c k)
    ((window Row.changeSequence (c k) snapshot (entityFeed d projectId k)).take limit)

def morePages (d : Data) (projectId : Uuid) (snapshot limit : ℕ) (c : PullKey → ℕ) (k : PullKey) :
    Prop :=
  limit < (window Row.changeSequence (c k) snapshot (entityFeed d projectId k)).length

/-- The page of every list that starts at `c`. -/
def pageAt (d : Data) (projectId : Uuid) (snapshot limit : ℕ) (c : PullKey → ℕ) : PullResponse where
  serverSequence := snapshot
  rows k := (window Row.changeSequence (c k) snapshot (entityFeed d projectId k)).take limit
  paging := some (fun k ↦ decide (limit <
      (window Row.changeSequence (c k) snapshot (entityFeed d projectId k)).length),
    fun k ↦ renderCursor (nextStart d projectId snapshot limit c k))

/-- The client's requests, answered by the server as it is at each of them. -/
def pullRequest (hardCap : ℕ) (d : ℕ → Data) (projectId : Uuid) (since limit : ℕ) (i : ℕ)
    (cursors : PullKey → Option Cursor) (snapshot : Option ℕ) :
    Except HttpFailure PullResponse :=
  pullSince hardCap (d i) projectId since (some limit) cursors snapshot

structure Paging (d₀ d : Data) (projectId : Uuid) (since snapshot : ℕ) (st : PullState)
    (c : PullKey → ℕ) : Prop where
  current : ∃ n, d.lastSequence projectId = some n ∧ snapshot ≤ n ∧ st.snapshot.getD n = snapshot
  cursors : ∀ k, (st.cursors k = none ∧ c k = since) ∨ st.cursors k = some (renderCursor (c k))
  collected : ∀ k, Collected d₀ d projectId since snapshot k (c k) (st.merged k)

/-- What the loop has when it ends: nothing but rows of the range, and all that are in it at the
last request. -/
structure Pulled (d₀ d : Data) (projectId : Uuid) (since snapshot : ℕ) (st : PullState) :
    Prop where
  fixed : st.snapshot = some snapshot
  collected : ∀ k, ∃ c, Collected d₀ d projectId since snapshot k c (st.merged k)
  complete : ∀ k, ∀ r ∈ entityFeed d projectId k, since < r.changeSequence →
    r.changeSequence ≤ snapshot → r ∈ st.merged k

section Loop

variable (hardCap : ℕ) {d : ℕ → Data} {projectId : Uuid} {since limit snapshot : ℕ}
  (hlimit : 1 ≤ limit) (hwf : ∀ i, (d i).WellFormed) (hstep : ∀ i, FeedStep (d i) (d (i + 1)))

include hwf hstep

theorem feedStep_of_le {i j : ℕ} (hij : i ≤ j) : FeedStep (d i) (d j) := by
  induction j, hij using Nat.le_induction with
  | base => exact .refl _
  | succ j _ ih => exact ih.trans (hwf (j + 1)) (hstep j)

theorem lastSequence_of_le {i j n : ℕ} (hij : i ≤ j)
    (hn : (d i).lastSequence projectId = some n) :
    ∃ m, (d j).lastSequence projectId = some m ∧ n ≤ m :=
  (feedStep_of_le hwf hstep hij).counter projectId n hn

include hlimit

omit hwf hstep in
theorem Paging.response {i : ℕ} {st : PullState} {c : PullKey → ℕ}
    (h : Paging (d 0) (d i) projectId since snapshot st c) :
    pullRequest hardCap d projectId since limit i st.cursors st.snapshot =
      .ok (pageAt (d i) projectId snapshot limit c) := by
  obtain ⟨n, hn, hle, hget⟩ := h.current
  have hlo : since ≤ snapshot := (h.collected .risks).lo.trans (h.collected .risks).hi
  have hcur : ∀ k, parseSequenceCursor (st.cursors k) since snapshot = .ok (c k) := by
    intro k
    rcases h.cursors k with ⟨hnone, hc⟩ | hsome
    · rw [hnone, hc]
      rfl
    · rw [hsome]
      exact parseSequenceCursor_render (h.collected k).lo (h.collected k).hi
  have hpage := @pullSince_page hardCap (d i) projectId since limit n st.cursors st.snapshot c
  rw [hget] at hpage
  exact hpage (by omega) hn hlo hle hcur

/-- One page: the loop ends with it, or it goes on with fewer sequences left. -/
theorem Paging.step {request : ℕ → (PullKey → Option Cursor) → Option ℕ →
      Except HttpFailure PullResponse} {i : ℕ} {st : PullState} {c : PullKey → ℕ}
    (h : Paging (d 0) (d i) projectId since snapshot st c)
    (hsnap : (d 0).lastSequence projectId = some snapshot)
    (hresp : request i st.cursors st.snapshot = .ok (pageAt (d i) projectId snapshot limit c)) :
    ((∀ k, ¬ morePages (d i) projectId snapshot limit c k) ∧
      ∃ st', Pulled (d 0) (d i) projectId since snapshot st' ∧ ∀ fuel,
        pullPaginated request (fuel + 1) i st = some (.ok (st', i))) ∨
    (∃ k, morePages (d i) projectId snapshot limit c k) ∧
      remaining snapshot (nextStart (d i) projectId snapshot limit c) < remaining snapshot c ∧
      ∃ st', Paging (d 0) (d (i + 1)) projectId since snapshot st'
          (nextStart (d i) projectId snapshot limit c) ∧
        ∀ fuel, pullPaginated request (fuel + 1) i st =
          pullPaginated request fuel (i + 1) st' := by
  obtain ⟨n, hn, hle, hget⟩ := h.current
  set w := fun k ↦ window Row.changeSequence (c k) snapshot (entityFeed (d i) projectId k) with hw
  set c' := nextStart (d i) projectId snapshot limit c with hc'
  have hresp : request i st.cursors st.snapshot = .ok ⟨snapshot, fun k ↦ (w k).take limit,
      some (fun k ↦ decide (limit < (w k).length), fun k ↦ renderCursor (c' k))⟩ := hresp
  have hany : st.snapshot.any (· ≠ snapshot) = false := by
    cases hs : st.snapshot with
    | none => rfl
    | some m =>
      rw [hs] at hget
      simp only [Option.getD_some] at hget
      simp [hget]
  have hnext : ∀ k, Collected (d 0) (d i) projectId since snapshot k (c' k)
      (st.merged k ++ (w k).take limit) := fun k ↦
    (h.collected k).page (hwf 0) (hwf i) (feedStep_of_le hwf hstep i.zero_le) hsnap le_rfl limit
  have hne : ∀ k, renderCursor (c' k) ≠ [] := fun k ↦ by simp [renderCursor]
  by_cases hmore : PullKey.all.filter (fun k ↦ decide (limit < (w k).length)) = []
  · left
    have hlast : ∀ k, ¬ limit < (w k).length := by
      intro k
      have hk := List.filter_eq_nil_iff.mp hmore k (by cases k <;> decide)
      simpa using hk
    refine ⟨hlast, ⟨st.cursors, some snapshot, fun k ↦ st.merged k ++ (w k).take limit⟩,
      ⟨rfl, fun k ↦ ⟨c' k, hnext k⟩, fun k r hr hlo hhi ↦ ?_⟩, fun fuel ↦ ?_⟩
    · exact (h.collected k).complete (not_lt.mp (hlast k)) hr hlo hhi
    · simp only [pullPaginated, hresp, hany, nextPageCursors, hmore, if_true]
      rfl
  · right
    obtain ⟨k₀, hk₀⟩ := List.exists_mem_of_ne_nil _ hmore
    have hlen : limit < (w k₀).length := by simpa using (List.mem_filter.mp hk₀).2
    have hadvance : ∀ k, (w k).take limit ≠ [] → c k < c' k := fun k hpage ↦
      lo_lt_cursor (fun r hr ↦ (mem_window.mp (List.mem_of_mem_take hr)).2.1) hpage
    have hpage : ∀ k, limit < (w k).length → (w k).take limit ≠ [] := by
      intro k hk he
      rcases List.take_eq_nil_iff.mp he with h0 | hnil
      · omega
      · rw [hnil] at hk
        simp at hk
    have hstalled : (PullKey.all.filter fun k ↦ decide (limit < (w k).length)).any
        (fun k ↦ renderCursor (c' k) = [] || st.cursors k = some (renderCursor (c' k))) =
        false := by
      rw [List.any_eq_false]
      intro k hk
      have hlt := hadvance k (hpage k (by simpa using (List.mem_filter.mp hk).2))
      have hcursor : st.cursors k ≠ some (renderCursor (c' k)) := by
        rcases h.cursors k with ⟨hnone, -⟩ | hsome
        · simp [hnone]
        · rw [hsome]
          intro he
          have := renderCursor_inj (Option.some.inj he)
          omega
      simp [hne k, hcursor]
    refine ⟨⟨k₀, hlen⟩, ?_, ⟨fun k ↦ some (renderCursor (c' k)), some snapshot,
      fun k ↦ st.merged k ++ (w k).take limit⟩, ⟨?_, ?_, ?_⟩, ?_⟩
    · refine remaining_lt (fun k ↦ ?_) (fun k ↦ (hnext k).hi) (hadvance k₀ (hpage k₀ hlen))
      exact lo_le_cursor fun r hr ↦ (mem_window.mp (List.mem_of_mem_take hr)).2.1
    · obtain ⟨m, hm, hnm⟩ := (hstep i).counter projectId n hn
      exact ⟨m, hm, hle.trans hnm, rfl⟩
    · exact fun k ↦ Or.inr rfl
    · exact fun k ↦ (hnext k).later (hwf i) (hwf (i + 1)) (hstep i) hn hle
    · intro fuel
      have hcursors : (fun k ↦ if renderCursor (c' k) = [] then none
          else some (renderCursor (c' k))) = fun k ↦ some (renderCursor (c' k)) :=
        funext fun k ↦ if_neg (hne k)
      simp only [pullPaginated, hresp, hany, nextPageCursors, hmore, if_false, hstalled, hcursors]
      rfl

theorem Paging.run (hsnap : (d 0).lastSequence projectId = some snapshot) (fuel : ℕ) {i : ℕ}
    {st : PullState} {c : PullKey → ℕ} (h : Paging (d 0) (d i) projectId since snapshot st c)
    (hfuel : remaining snapshot c < fuel) :
    ∃ st' j, Pulled (d 0) (d j) projectId since snapshot st' ∧
      pullPaginated (pullRequest hardCap d projectId since limit) fuel i st =
        some (.ok (st', j)) := by
  induction fuel generalizing i st c with
  | zero => omega
  | succ fuel ih =>
    have hresp := h.response hardCap hlimit
    rcases h.step hlimit hwf hstep hsnap hresp with
      ⟨-, st', hdone, heq⟩ | ⟨-, hlt, st', hnext, heq⟩
    · exact ⟨st', i, hdone, heq fuel⟩
    · rw [heq fuel]
      exact ih hnext (by omega)

end Loop

section Result

variable {d₀ d : Data} {projectId : Uuid} {since snapshot : ℕ} {st : PullState}

theorem PullState.mem_rows {r : Row} : r ∈ st.rows ↔ ∃ k, r ∈ st.merged k := by
  rw [PullState.rows, List.mem_flatMap]
  constructor
  · rintro ⟨k, -, hr⟩
    exact ⟨k, hr⟩
  · rintro ⟨k, hr⟩
    exact ⟨k, by cases k <;> decide, hr⟩

theorem Pulled.bounds (h : Pulled d₀ d projectId since snapshot st) {r : Row} (hr : r ∈ st.rows) :
    since < r.changeSequence ∧ r.changeSequence ≤ snapshot := by
  obtain ⟨k, hr⟩ := PullState.mem_rows.mp hr
  obtain ⟨c, hc⟩ := h.collected k
  exact ⟨(hc.bounds r hr).1, (hc.bounds r hr).2.trans hc.hi⟩

/-- No row is reported twice: all are rows of the first snapshot, each in one list only. -/
theorem Pulled.nodup (h : Pulled d₀ d projectId since snapshot st) (hd₀ : d₀.WellFormed) :
    (st.rows.map Row.key).Nodup := by
  have horigin : ∀ k, ∀ r ∈ st.merged k, r ∈ d₀.rows ∧ pullKey r = some k := by
    intro k r hr
    obtain ⟨c, hc⟩ := h.collected k
    obtain ⟨hmem, -, hkey⟩ := (mem_entityFeed hd₀).mp (hc.origin r hr)
    exact ⟨hmem, hkey⟩
  have hrows : st.rows.Nodup := by
    rw [PullState.rows, List.nodup_flatMap]
    refine ⟨fun k _ ↦ ?_, ?_⟩
    · obtain ⟨c, hc⟩ := h.collected k
      refine hc.sorted.imp fun {r s} hlt he ↦ ?_
      rw [he] at hlt
      exact lt_irrefl _ hlt
    · have hall : PullKey.all.Pairwise (· ≠ ·) := by decide
      refine hall.imp fun {k k'} hne r hr hr' ↦ hne ?_
      exact Option.some.inj ((horigin k r hr).2.symm.trans (horigin k' r hr').2)
  refine List.Nodup.map_on (fun r hr s hs he ↦ ?_) hrows
  obtain ⟨k, hr⟩ := PullState.mem_rows.mp hr
  obtain ⟨k', hs⟩ := PullState.mem_rows.mp hs
  exact hd₀.eq_of_key (horigin k r hr).1 (horigin k' s hs).1 he

end Result

section Loop

variable (hardCap : ℕ) {d : ℕ → Data} {projectId : Uuid} {since limit snapshot : ℕ}

theorem Paging.start {d : Data} (hsnap : d.lastSequence projectId = some snapshot)
    (hsince : since ≤ snapshot) : Paging d d projectId since snapshot {} (fun _ ↦ since) := by
  refine ⟨⟨snapshot, hsnap, le_rfl, rfl⟩, fun k ↦ Or.inl ⟨rfl, rfl⟩, fun k ↦ ?_⟩
  refine ⟨le_rfl, hsince, .nil, fun r hr ↦ ?_, fun r hr ↦ ?_, fun r _ hlo hhi ↦ ?_⟩
  · exact absurd hr List.not_mem_nil
  · exact absurd hr List.not_mem_nil
  · omega

theorem pullPaginated_pulled (hlimit : 1 ≤ limit) (hwf : ∀ i, (d i).WellFormed)
    (hstep : ∀ i, FeedStep (d i) (d (i + 1)))
    (hsnap : (d 0).lastSequence projectId = some snapshot) (hsince : since ≤ snapshot) :
    ∃ fuel₀ st j, (∀ fuel ≥ fuel₀,
        pullPaginated (pullRequest hardCap d projectId since limit) fuel 0 {} =
          some (.ok (st, j))) ∧ Pulled (d 0) (d j) projectId since snapshot st := by
  have hrun := fun fuel ↦ (Paging.start hsnap hsince).run hardCap hlimit hwf hstep hsnap fuel
  obtain ⟨st, j, hdone, heq⟩ := hrun _ (Nat.lt_succ_self _)
  exact ⟨_, st, j, fun fuel hf ↦ pullPaginated_mono heq hf, hdone⟩

end Loop

/-- Pull completeness under pagination and concurrent writers: `d i` is the server at the `i`-th
page request. -/
theorem pull_paginated_complete (hardCap : ℕ) {d : ℕ → Data} {projectId : Uuid}
    {since limit snapshot : ℕ} (hlimit : 1 ≤ limit) (hwf : ∀ i, (d i).WellFormed)
    (hstep : ∀ i, FeedStep (d i) (d (i + 1)))
    (hsnap : (d 0).lastSequence projectId = some snapshot) (hsince : since ≤ snapshot) :
    ∃ fuel₀ st j, (∀ fuel ≥ fuel₀,
        pullPaginated (pullRequest hardCap d projectId since limit) fuel 0 {} =
          some (.ok (st, j))) ∧
      st.snapshot = some snapshot ∧
      (∀ r ∈ st.rows, since < r.changeSequence ∧ r.changeSequence ≤ snapshot) ∧
      (st.rows.map Row.key).Nodup ∧
      ∀ e ≥ j,
        (∀ r ∈ (d e).rows, (d e).projectOf r = some projectId → since < r.changeSequence →
          r.changeSequence ≤ snapshot → r ∈ st.rows) ∧
        ∀ r ∈ (d 0).rows, (d 0).projectOf r = some projectId → since < r.changeSequence →
          r.changeSequence ≤ snapshot → r ∉ st.rows →
          ∃ r' ∈ (d e).rows, r'.key = r.key ∧ (d e).projectOf r' = some projectId ∧
            snapshot < r'.changeSequence := by
  obtain ⟨fuel₀, st, j, hfuel, hdone⟩ :=
    pullPaginated_pulled hardCap hlimit hwf hstep hsnap hsince
  refine ⟨fuel₀, st, j, hfuel, hdone.fixed, fun r hr ↦ hdone.bounds hr, hdone.nodup (hwf 0),
    fun e he ↦ ?_⟩
  obtain ⟨n, hn, hle⟩ := lastSequence_of_le hwf hstep j.zero_le hsnap
  have hall : ∀ r ∈ (d e).rows, (d e).projectOf r = some projectId → since < r.changeSequence →
      r.changeSequence ≤ snapshot → r ∈ st.rows := by
    intro r hr hp hlo hhi
    obtain ⟨k, hk⟩ := pullKey_isSome (hwf e) hr
    have hfeed := mem_entityFeed_of_later (hwf j) (hwf e) (feedStep_of_le hwf hstep he) hn
      ((mem_entityFeed (hwf e)).mpr ⟨hr, hp, hk⟩) (hhi.trans hle)
    exact PullState.mem_rows.mpr ⟨k, hdone.complete k r hfeed hlo hhi⟩
  refine ⟨hall, fun r hr hp hlo hhi hmiss ↦ ?_⟩
  have h0e := feedStep_of_le hwf hstep e.zero_le
  obtain ⟨r', hr', hk, hp'⟩ := h0e.persists r hr
  rw [hp] at hp'
  refine ⟨r', hr', hk.key, hp', ?_⟩
  rcases h0e.stamped r' hr' with hold | ⟨p, n', hpp, -, -, hgt⟩
  · obtain rfl := (hwf 0).eq_of_key hold hr hk.key
    exact absurd (hall r' hr' hp' hlo hhi) hmiss
  · obtain rfl : p = projectId := Option.some.inj (hpp.symm.trans hp')
    exact hgt snapshot hsnap

section Sample

def addedRisk (changeId riskId : Uuid) : SyncChange × Time :=
  (⟨changeId, .risk, .upsert, none, .ofList [(.id, .uuid riskId), (.title, .str "B"),
    (.probability, .int 2), (.impact, .int 3)]⟩, 5)

def secondRetitled : SyncChange × Time :=
  (⟨8, .risk, .upsert, some 1, .ofList [(.id, .uuid 101), (.title, .str "C")]⟩, 6)

def pushed (db : Db Val) (changes : List (SyncChange × Time)) : Db Val :=
  ((PushContext.start db 10 1 .manager changes).run .strict titleDigest changes).db

/-- Three risks, of which the second is retitled after the first page. -/
def sampleWrites : ℕ → Data
  | 0 => (pushed sampleDb [addedRisk 6 101, addedRisk 7 102]).data
  | _ + 1 => (pushed (pushed sampleDb [addedRisk 6 101, addedRisk 7 102]) [secondRetitled]).data

theorem sampleWrites_feed : (∀ i, (sampleWrites i).WellFormed) ∧
    ∀ i, FeedStep (sampleWrites i) (sampleWrites (i + 1)) := by
  have hpush : ∀ (db : Db Val) changes, db.data.WellFormed →
      (pushed db changes).data.WellFormed ∧ FeedStep db.data (pushed db changes).data :=
    fun db changes h ↦ run_feedStep .strict titleDigest (.start db 10 1 .manager changes) changes h
  have hfirst := (hpush sampleDb [addedRisk 6 101, addedRisk 7 102] sampleDb_wellFormed).1
  have hsecond := hpush _ [secondRetitled] hfirst
  refine ⟨fun i ↦ ?_, fun i ↦ ?_⟩
  · cases i with
    | zero => exact hfirst
    | succ i => exact hsecond.1
  · cases i with
    | zero => exact hsecond.2
    | succ i => exact .refl _

/-- The pages bring the other two risks; the second has moved behind the snapshot. -/
theorem pull_paginated_complete_sample :
    ∃ fuel₀ st j, (∀ fuel ≥ fuel₀,
        pullPaginated (pullRequest 5 sampleWrites 1 0 1) fuel 0 {} = some (.ok (st, j))) ∧
      st.snapshot = some 3 ∧ j = 1 ∧ st.rows.map Row.id = [100, 102] ∧
      ∃ r ∈ (sampleWrites j).rows, r.id = 101 ∧ 3 < r.changeSequence := by
  obtain ⟨fuel₀, st, j, heq, hsnap, -⟩ := @pull_paginated_complete 5 sampleWrites 1 0 1 3
    le_rfl sampleWrites_feed.1 sampleWrites_feed.2 rfl (Nat.zero_le 3)
  have hrun : (pullPaginated (pullRequest 5 sampleWrites 1 0 1) 3 0 {}).map
      (fun result ↦ result.toOption.map fun done ↦ (done.1.rows.map Row.id, done.2)) =
      some (some ([100, 102], 1)) := by
    decide
  obtain ⟨result, hresult, hrun⟩ := Option.map_eq_some_iff.mp hrun
  have hlong := pullPaginated_mono hresult (Nat.le_max_right fuel₀ 3)
  obtain rfl : .ok (st, j) = result :=
    Option.some.inj ((heq _ (Nat.le_max_left fuel₀ 3)).symm.trans hlong)
  obtain ⟨hids, rfl⟩ := Prod.mk.inj (Option.some.inj hrun)
  exact ⟨fuel₀, st, 1, heq, hsnap, rfl, hids, by decide⟩

end Sample

end RiskApp.Client

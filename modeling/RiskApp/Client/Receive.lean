import Mathlib.Algebra.GroupWithZero.Nat
import RiskApp.Client.Pull

namespace RiskApp.Client

open Server Lib Lib.Window

def maxResponseBytes : ℕ := 5000000

/-- The `limit` of `_pull_paginated`. -/
def pageLimit : ℕ := 2000

/-- `_read_limited`: a longer body is an `ApiError` of status 0. -/
def receive (size : PullResponse → ℕ) (answer : Except HttpFailure PullResponse) :
    Except HttpFailure PullResponse :=
  answer.bind fun resp ↦ if maxResponseBytes < size resp then .error 0 else .ok resp

/-- The keys of a pull that `_apply_pull` reads. -/
structure Fetched where
  serverSequence : Option ℕ
  rows : PullKey → List Row

def requestPage (size : PullResponse → ℕ) (hardCap : ℕ) (d : ℕ → Data) (projectId : Uuid)
    (since i : ℕ) (cursors : PullKey → Option Cursor) (snapshot : Option ℕ) :
    Except HttpFailure PullResponse :=
  receive size (pullRequest hardCap (fun i ↦ d (i + 1)) projectId since pageLimit i cursors
    snapshot)

/-- `_fetch_pull`; `d i` is the server at the `i`-th request, and `none` means that the fuel did
not suffice for the pages. -/
def fetchPull (size : PullResponse → ℕ) (hardCap : ℕ) (d : ℕ → Data) (projectId : Uuid)
    (since fuel : ℕ) : Option (Except PullFailure Fetched) :=
  match receive size (pullSince hardCap (d 0) projectId since none (fun _ ↦ none) none) with
  | .ok resp => some (.ok ⟨some resp.serverSequence, resp.rows⟩)
  | .error code =>
    if code = 413 then
      (pullPaginated (requestPage size hardCap d projectId since) fuel 0 {}).map fun result ↦
        result.map fun (st, _) ↦ ⟨st.snapshot, st.merged⟩
    else some (.error (.http code))

/-- The rows of the feed after `since` up to the reported sequence: no other and each once, and
all that the server has at the last request. -/
structure Fetched.Complete (pull : Fetched) (d : Data) (projectId : Uuid) (since : ℕ) : Prop where
  sequence : ∃ n, pull.serverSequence = some n ∧ since ≤ n ∧
    (∀ k, ∀ r ∈ pull.rows k, since < r.changeSequence ∧ r.changeSequence ≤ n) ∧
    ∀ r ∈ d.rows, d.projectOf r = some projectId → since < r.changeSequence →
      r.changeSequence ≤ n → ∃ k, r ∈ pull.rows k
  nodup : ((PullKey.all.flatMap pull.rows).map Row.key).Nodup

section Fits

variable (size : PullResponse → ℕ) (hardCap : ℕ) (d : ℕ → Data) (projectId : Uuid) (since : ℕ)

def unseen (d : Data) (current : ℕ) (k : PullKey) : List Row :=
  window Row.changeSequence since current (entityFeed d projectId k)

/-- No list exceeds the server's cap, and the body with all of them fits the client. -/
def WholeFits (current : ℕ) : Prop :=
  (∀ k, (unseen projectId since (d 0) current k).length ≤ hardCap) ∧
    size ⟨current, unseen projectId since (d 0) current, none⟩ ≤ maxResponseBytes

/-- Where the `n`-th page starts in every list, when `d i` is the server at the `i`-th page. -/
def pageStart (snapshot : ℕ) : ℕ → PullKey → ℕ
  | 0, _ => since
  | n + 1, k => nextStart (d n) projectId snapshot pageLimit (pageStart snapshot n) k

/-- From the `n`-th page on, every page that the server has to send fits the client. -/
def PagesFit (snapshot n : ℕ) : Prop :=
  ∀ m ≥ n, (∀ l, n ≤ l → l < m →
      ∃ k, morePages (d l) projectId snapshot pageLimit
      (pageStart d projectId since snapshot l) k) →
    size (pageAt (d m) projectId snapshot pageLimit (pageStart d projectId since snapshot m)) ≤
      maxResponseBytes

/-- The first answer fits the client, or the cap refuses it and then every page fits. -/
def Receivable (current snapshot : ℕ) : Prop :=
  WholeFits size hardCap d projectId since current ∨
    (∃ k, hardCap < (unseen projectId since (d 0) current k).length) ∧
      PagesFit size (fun i ↦ d (i + 1)) projectId since snapshot 0

end Fits

section Pages

variable {size : PullResponse → ℕ} {hardCap : ℕ} {d : ℕ → Data} {projectId : Uuid}
  {since snapshot : ℕ}

theorem receive_ok {resp : PullResponse} (h : size resp ≤ maxResponseBytes) :
    receive size (.ok resp) = .ok resp :=
  if_neg (by omega)

theorem receive_large {resp : PullResponse} (h : maxResponseBytes < size resp) :
    receive size (.ok resp) = .error 0 :=
  if_pos h

theorem PagesFit.succ_iff {n : ℕ} (hfit : size (pageAt (d n) projectId snapshot pageLimit
      (pageStart d projectId since snapshot n)) ≤ maxResponseBytes)
    (hmore : ∃ k, morePages (d n) projectId snapshot pageLimit
      (pageStart d projectId since snapshot n) k) :
    PagesFit size d projectId since snapshot n ↔
      PagesFit size d projectId since snapshot (n + 1) := by
  constructor
  · intro h m hm hpages
    refine h m (by omega) fun l hl hlm ↦ ?_
    by_cases he : l = n
    · exact he ▸ hmore
    · exact hpages l (by omega) hlm
  · intro h m hm hpages
    by_cases he : m = n
    · exact he ▸ hfit
    · exact h m (by omega) fun l hl hlm ↦ hpages l (by omega) hlm

theorem Paging.received (hwf : ∀ i, (d i).WellFormed) (hstep : ∀ i, FeedStep (d i) (d (i + 1)))
    (hsnap : (d 0).lastSequence projectId = some snapshot) (fuel : ℕ) {n : ℕ} {st : PullState}
    (h : Paging (d 0) (d n) projectId since snapshot st (pageStart d projectId since snapshot n))
    (hfuel : remaining snapshot (pageStart d projectId since snapshot n) < fuel) :
    let request := fun i cursors snap ↦
      receive size (pullRequest hardCap d projectId since pageLimit i cursors snap)
    (PagesFit size d projectId since snapshot n → ∃ st' j,
        Pulled (d 0) (d j) projectId since snapshot st' ∧
          pullPaginated request fuel n st = some (.ok (st', j))) ∧
      (¬ PagesFit size d projectId since snapshot n →
        pullPaginated request fuel n st = some (.error (.http 0))) := by
  intro request
  induction fuel generalizing n st with
  | zero => omega
  | succ fuel ih =>
    have hanswer := h.response hardCap (show 1 ≤ pageLimit by decide)
    by_cases hfit : size (pageAt (d n) projectId snapshot pageLimit
        (pageStart d projectId since snapshot n)) ≤ maxResponseBytes
    · have hresp : request n st.cursors st.snapshot = .ok (pageAt (d n) projectId snapshot pageLimit
          (pageStart d projectId since snapshot n)) := by
        simp only [request, hanswer, receive_ok hfit]
      rcases h.step (show 1 ≤ pageLimit by decide) hwf hstep hsnap hresp with
        ⟨hlast, st', hdone, heq⟩ | ⟨hmore, hlt, st', hnext, heq⟩
      · have hall : PagesFit size d projectId since snapshot n := by
          intro m hm hpages
          by_cases he : m = n
          · exact he ▸ hfit
          · obtain ⟨k, hk⟩ := hpages n le_rfl (by omega)
            exact absurd hk (hlast k)
        exact ⟨fun _ ↦ ⟨st', n, hdone, heq fuel⟩, fun hno ↦ absurd hall hno⟩
      · rw [heq fuel, PagesFit.succ_iff hfit hmore]
        have hless : remaining snapshot (pageStart d projectId since snapshot (n + 1)) <
            remaining snapshot (pageStart d projectId since snapshot n) := hlt
        exact ih hnext (by omega)
    · have hresp : request n st.cursors st.snapshot = .error 0 := by
        simp only [request, hanswer, receive_large (not_le.mp hfit)]
      refine ⟨fun hall ↦ absurd (hall n le_rfl fun l _ _ ↦ by omega) hfit, fun _ ↦ ?_⟩
      simp only [pullPaginated, hresp]

end Pages

section Fetch

variable {projectId : Uuid} {since : ℕ}

/-- Whatever the loop ends with is complete. -/
theorem Pulled.complete_fetched {d₀ d : Data} {snapshot : ℕ} {st : PullState}
    (h : Pulled d₀ d projectId since snapshot st) (hd₀ : d₀.WellFormed) (hd : d.WellFormed) :
    (⟨st.snapshot, st.merged⟩ : Fetched).Complete d projectId since := by
  refine ⟨⟨snapshot, h.fixed, ?_, fun k r hr ↦ ?_, fun r hr hp hlo hhi ↦ ?_⟩, h.nodup hd₀⟩
  · obtain ⟨c, hc⟩ := h.collected .risks
    exact hc.lo.trans hc.hi
  · exact h.bounds (PullState.mem_rows.mpr ⟨k, hr⟩)
  · obtain ⟨k, hk⟩ := pullKey_isSome hd hr
    exact ⟨k, h.complete k r ((mem_entityFeed hd).mpr ⟨hr, hp, hk⟩) hlo hhi⟩

theorem unseen_pulled {d : Data} {current : ℕ} (hd : d.WellFormed)
    (hcurrent : d.lastSequence projectId = some current) (hsince : since ≤ current) :
    Pulled d d projectId since current
      ⟨fun _ ↦ none, some current, unseen projectId since d current⟩ := by
  have hstart := fun k ↦ (Paging.start hcurrent hsince).collected k
  refine ⟨rfl, fun k ↦ ?_, fun k r hr hlo hhi ↦ mem_window.mpr ⟨hr, hlo, hhi⟩⟩
  have hpage := (hstart k).page hd hd (.refl d) hcurrent le_rfl
    (unseen projectId since d current k).length
  exact ⟨_, by simpa only [unseen, List.take_length, List.nil_append] using hpage⟩

variable {size : PullResponse → ℕ} {hardCap : ℕ} {d : ℕ → Data} {current snapshot : ℕ}

theorem any_large (n : PullKey → ℕ) :
    PullKey.all.any (fun k ↦ hardCap < n k) = true ↔ ∃ k, hardCap < n k := by
  rw [List.any_eq_true]
  constructor
  · rintro ⟨k, -, hk⟩
    exact ⟨k, of_decide_eq_true hk⟩
  · rintro ⟨k, hk⟩
    exact ⟨k, by cases k <;> decide, decide_eq_true hk⟩

theorem pullSince_unseen {d : Data} (hcap : 1 ≤ hardCap)
    (hcurrent : d.lastSequence projectId = some current) (hsince : since ≤ current) :
    pullSince hardCap d projectId since none (fun _ ↦ none) none =
      if PullKey.all.any (fun k ↦ hardCap < (unseen projectId since d current k).length) then
        .error 413
      else .ok ⟨current, unseen projectId since d current, none⟩ :=
  pullSince_whole (by omega) hcurrent hsince

theorem fetchPull_pages (hcap : 1 ≤ hardCap)
    (hcurrent : (d 0).lastSequence projectId = some current) (hsince : since ≤ current)
    (hbig : ∃ k, hardCap < (unseen projectId since (d 0) current k).length) (fuel : ℕ) :
    fetchPull size hardCap d projectId since fuel =
      (pullPaginated (requestPage size hardCap d projectId since) fuel 0 {}).map fun result ↦
        result.map fun (st, _) ↦ ⟨st.snapshot, st.merged⟩ := by
  have hwhole := pullSince_unseen hcap hcurrent hsince
  rw [if_pos ((any_large _).mpr hbig)] at hwhole
  unfold fetchPull
  rw [hwhole]
  rfl

theorem fetchPull_whole (hcap : 1 ≤ hardCap)
    (hcurrent : (d 0).lastSequence projectId = some current) (hsince : since ≤ current)
    (hshort : ¬ ∃ k, hardCap < (unseen projectId since (d 0) current k).length) (fuel : ℕ) :
    fetchPull size hardCap d projectId since fuel =
      if size ⟨current, unseen projectId since (d 0) current, none⟩ ≤ maxResponseBytes then
        some (.ok ⟨some current, unseen projectId since (d 0) current⟩)
      else some (.error (.http 0)) := by
  have hwhole := pullSince_unseen hcap hcurrent hsince
  rw [if_neg fun h ↦ hshort ((any_large _).mp h)] at hwhole
  unfold fetchPull
  rw [hwhole]
  by_cases hfit : size ⟨current, unseen projectId since (d 0) current, none⟩ ≤ maxResponseBytes
  · rw [if_pos hfit, receive_ok hfit]
  · rw [if_neg hfit, receive_large (not_le.mp hfit)]
    rfl

/-- A pull brings every row of the feed after `since` exactly when its answers fit the client: the
whole lists in one body, or, when a list exceeds the cap of the server, every page in turn. -/
theorem every_pull_receivable (size : PullResponse → ℕ) (hcap : 1 ≤ hardCap)
    (hwf : ∀ i, (d i).WellFormed) (hstep : ∀ i, FeedStep (d i) (d (i + 1)))
    (hcurrent : (d 0).lastSequence projectId = some current)
    (hsnapshot : (d 1).lastSequence projectId = some snapshot) (hsince : since ≤ current) :
    (∃ fuel₀ pull j, (∀ fuel ≥ fuel₀,
        fetchPull size hardCap d projectId since fuel = some (.ok pull)) ∧
        pull.Complete (d j) projectId since) ↔
      Receivable size hardCap d projectId since current snapshot := by
  by_cases hbig : ∃ k, hardCap < (unseen projectId since (d 0) current k).length
  · have hmore : since ≤ snapshot := by
      obtain ⟨n, hn, hle⟩ := (hstep 0).counter projectId current hcurrent
      obtain rfl : n = snapshot := Option.some.inj (hn.symm.trans hsnapshot)
      omega
    have hpages := fun fuel hfuel ↦ @Paging.received size hardCap (fun i ↦ d (i + 1))
        projectId since
      snapshot (fun i ↦ hwf (i + 1)) (fun i ↦ hstep (i + 1)) hsnapshot fuel 0 {}
      (Paging.start hsnapshot hmore) hfuel
    have hfetch := fun fuel ↦ @fetchPull_pages projectId since size hardCap d current hcap hcurrent
      hsince hbig fuel
    set bound := remaining snapshot (pageStart (fun i ↦ d (i + 1)) projectId since snapshot 0)
    by_cases hfit : PagesFit size (fun i ↦ d (i + 1)) projectId since snapshot 0
    · refine iff_of_true ?_ (Or.inr ⟨hbig, hfit⟩)
      obtain ⟨st, j, hdone, heq⟩ := (hpages _ (Nat.lt_succ_self _)).1 hfit
      refine ⟨bound + 1, ⟨st.snapshot, st.merged⟩, j + 1, fun fuel hfuel ↦ ?_,
        hdone.complete_fetched (hwf 1) (hwf (j + 1))⟩
      rw [hfetch, show pullPaginated (requestPage size hardCap d projectId since) fuel 0 {} = _ from
        pullPaginated_mono heq hfuel]
      rfl
    · refine iff_of_false ?_ ?_
      · rintro ⟨fuel₀, pull, j, hok, -⟩
        have hlarge := (hpages (fuel₀ + (bound + 1)) (by omega)).2 hfit
        have hok := hok (fuel₀ + (bound + 1)) (by omega)
        rw [hfetch, show pullPaginated (requestPage size hardCap d projectId since) _ 0 {} = _ from
          hlarge] at hok
        cases hok
      · rintro (⟨hshort, -⟩ | ⟨-, hall⟩)
        · obtain ⟨k, hk⟩ := hbig
          have := hshort k
          omega
        · exact hfit hall
  · have hshort : ∀ k, (unseen projectId since (d 0) current k).length ≤ hardCap := fun k ↦
      not_lt.mp fun hk ↦ hbig ⟨k, hk⟩
    have hfetch := fun fuel ↦ @fetchPull_whole projectId since size hardCap d current hcap hcurrent
      hsince hbig fuel
    by_cases hfit : size ⟨current, unseen projectId since (d 0) current, none⟩ ≤ maxResponseBytes
    · refine iff_of_true ⟨0, _, 0, fun fuel _ ↦ ?_, (unseen_pulled (hwf 0) hcurrent
        hsince).complete_fetched (hwf 0) (hwf 0)⟩ (Or.inl ⟨hshort, hfit⟩)
      rw [hfetch, if_pos hfit]
    · refine iff_of_false ?_ ?_
      · rintro ⟨fuel₀, pull, j, hok, -⟩
        have hok := hok fuel₀ le_rfl
        rw [hfetch, if_neg hfit] at hok
        cases hok
      · rintro (⟨-, hall⟩ | ⟨hlarge, -⟩)
        · exact hfit hall
        · exact hbig hlarge

end Fetch

section Sample

def rowText (r : Row) : ℕ :=
  (r.table.columns.map fun a ↦ match r.attrs a with
    | .str s => s.length
    | _ => 0).sum

def textLength (resp : PullResponse) : ℕ := ((PullKey.all.flatMap resp.rows).map rowText).sum

theorem every_pull_receivable_sample : ∃ fuel₀ pull, (∀ fuel ≥ fuel₀,
    fetchPull textLength 5000 (fun _ ↦ sampleDb.data) 1 0 fuel = some (.ok pull)) ∧
      pull.Complete sampleDb.data 1 0 := by
  have hwf : ∀ _ : ℕ, sampleDb.data.WellFormed := fun _ ↦ sampleDb_wellFormed
  obtain ⟨fuel₀, pull, j, h⟩ := (@every_pull_receivable 1 0 5000 (fun _ ↦ sampleDb.data) 1 1
    textLength (by decide) hwf (fun _ ↦ .refl _) rfl rfl (by decide)).mpr
    (Or.inl ⟨fun k ↦ by cases k <;> decide, by decide⟩)
  exact ⟨fuel₀, pull, h⟩

def noted (id userId sequence : ℕ) (notes : String) : Row :=
  ⟨.assessments, id, 1, sequence, Dict.get (Dict.ofList [(.itemId, .uuid 100),
    (.assessorUserId, .uuid userId), (.probability, .int 1), (.impact, .int 1), (.score, .int 1),
    (.notes, .str notes), (.isDeleted, .bool false), (.createdAt, .time 0), (.updatedAt, .time 0)])⟩

def notesData (notes : String) : Data :=
  { sampleDb.data with
    rows := [sampleRisk, noted 201 11 2 notes, noted 202 12 3 notes, noted 203 13 4 notes]
    lastSequence := fun p ↦ if p = 1 then some 4 else none }

def longNotes (length : ℕ) : String := String.ofList (List.replicate length 'n')

theorem length_longNotes (length : ℕ) : (longNotes length).length = length := by
  rw [longNotes, String.length_ofList, List.length_replicate]

theorem textLength_notes (notes : String)
    (paging : Option ((PullKey → Bool) × (PullKey → Cursor))) :
    3 * notes.length ≤ textLength ⟨4, unseen 1 0 (notesData notes) 4, paging⟩ := by
  have hlist : unseen 1 0 (notesData notes) 4 .assessments =
      [noted 201 11 2 notes, noted 202 12 3 notes, noted 203 13 4 notes] := rfl
  have hrow : ∀ id userId sequence, notes.length ≤ rowText (noted id userId sequence notes) := by
    intro id userId sequence
    have htext : rowText (noted id userId sequence notes) = notes.length := by
      simp [rowText, noted, Table.columns, Dict.get, Dict.ofList, Dict.set, Dict.empty]
    omega
  have h₁ := hrow 201 11 2
  have h₂ := hrow 202 12 3
  have h₃ := hrow 203 13 4
  simp only [textLength, PullKey.all, List.flatMap_cons, List.flatMap_nil, List.map_append,
    List.sum_append, hlist, List.map_cons, List.map_nil, List.sum_cons, List.sum_nil]
  omega

theorem notes_refused {notes : String} (hnotes : maxResponseBytes < 3 * notes.length)
    {size : PullResponse → ℕ} (hsize : ∀ resp, textLength resp ≤ size resp) (fuel : ℕ) :
    fetchPull size 5000 (fun _ ↦ notesData notes) 1 0 fuel = some (.error (.http 0)) := by
  have hshort : ¬ ∃ k, 5000 < (unseen 1 0 (notesData notes) 4 k).length := by
    rintro ⟨k, hk⟩
    have hlen : (unseen 1 0 (notesData notes) 4 k).length ≤ (notesData notes).rows.length := by
      unfold unseen window
      rw [List.length_insertionSort]
      exact (List.length_filter_le _ _).trans (List.length_filter_le _ _)
    have hrows : (notesData notes).rows.length = 4 := rfl
    omega
  have hlarge : ¬ size ⟨4, unseen 1 0 (notesData notes) 4, none⟩ ≤ maxResponseBytes := by
    have htext := textLength_notes notes none
    have hbody := hsize ⟨4, unseen 1 0 (notesData notes) 4, none⟩
    omega
  rw [fetchPull_whole (by decide) (show (notesData notes).lastSequence 1 = some 4 from rfl)
    (by decide) hshort, if_neg hlarge]

/-- However the answer is encoded, the client cannot read it, and asks for it again and again. -/
theorem long_notes_never_pulled : ¬ ∃ size : PullResponse → ℕ,
    (∀ resp, textLength resp ≤ size resp) ∧ ∃ fuel₀ pull, (∀ fuel ≥ fuel₀,
      fetchPull size 5000 (fun _ ↦ notesData (longNotes 1800000)) 1 0 fuel = some (.ok pull)) ∧
        pull.Complete (notesData (longNotes 1800000)) 1 0 := by
  rintro ⟨size, hsize, fuel₀, pull, hok, -⟩
  have hnotes : maxResponseBytes < 3 * (longNotes 1800000).length := by
    rw [length_longNotes]
    decide
  have hok := hok fuel₀ le_rfl
  rw [notes_refused hnotes hsize] at hok
  cases hok

end Sample

end RiskApp.Client

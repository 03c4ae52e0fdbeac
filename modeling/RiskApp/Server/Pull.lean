import RiskApp.Lib.Window
import RiskApp.Server.Feed

namespace RiskApp.Server

open Lib Lib.Window

inductive PullKey
  | risks
  | opportunities
  | actions
  | assessments
  | helpdeskTickets
  deriving DecidableEq, Repr

def PullKey.all : List PullKey :=
  [.risks, .opportunities, .actions, .assessments, .helpdeskTickets]

def Data.joinsItem (d : Data) (r : Row) : Bool :=
  match r.attrs .itemId with
  | .uuid itemId => (d.item itemId).isSome
  | _ => false

/-- The rows each query of `pull_since` selects from. -/
def inFeed (d : Data) (projectId : Uuid) (r : Row) : PullKey → Bool
  | .risks => r.table = .items && r.ownProject = some projectId && r.attrs .type = .str "risk"
  | .opportunities =>
    r.table = .items && r.ownProject = some projectId && r.attrs .type = .str "opportunity"
  | .actions => r.table = .actions && r.ownProject = some projectId && d.joinsItem r
  | .assessments => r.table = .assessments && d.projectOf r = some projectId
  | .helpdeskTickets => r.table = .helpdeskTickets && r.ownProject = some projectId

def entityFeed (d : Data) (projectId : Uuid) (key : PullKey) : List Row :=
  d.rows.filter (inFeed d projectId · key)

abbrev Cursor := List Char

def renderCursor (sequence : ℕ) : Cursor := "seq:".toList ++ Nat.toDigits 10 sequence

def parseSequenceCursor (cur : Option Cursor) (defaultSince snapshotSequence : ℕ) :
    Except HttpFailure ℕ :=
  let text := cur.getD []
  if text = [] then .ok defaultSince
  else match Text.splitOnce ':' text with
    | (_, none) => .error 400
    | (head, some value) => match Text.writtenInt value with
      | none => .error 400
      | some sequence =>
        if head = "seq".toList ∧ (defaultSince : ℤ) ≤ sequence ∧
            sequence ≤ (snapshotSequence : ℤ) then .ok sequence.toNat
        else .error 400

structure PullPage where
  rows : List Row
  hasMore : Bool
  cursor : Cursor

/-- The rows a page query returns: one more than the limit, to see whether there are more. A
limit of zero means none. -/
def selectRows (feed : List Row) (limit since snapshot : ℕ) : List Row :=
  let selected := window Row.changeSequence since snapshot feed
  if limit = 0 then selected else selected.take (limit + 1)

def moreRows (limit : ℕ) (rows : List Row) : Bool := limit ≠ 0 && limit < rows.length

def pageOf (limit since : ℕ) (rows : List Row) : PullPage :=
  let kept := if moreRows limit rows then rows.take limit else rows
  ⟨kept, moreRows limit rows, renderCursor (cursor Row.changeSequence since kept)⟩

def pullPage (feed : List Row) (limit since snapshot : ℕ) (cur : Option Cursor) :
    Except HttpFailure PullPage :=
  (parseSequenceCursor cur since snapshot).map fun since ↦
    pageOf limit since (selectRows feed limit since snapshot)

/-- A pull response; `paging` is absent when no page limit was asked for. -/
structure PullResponse where
  serverSequence : ℕ
  rows : PullKey → List Row
  paging : Option ((PullKey → Bool) × (PullKey → Cursor))

def pullPages (page : PullKey → Except HttpFailure PullPage) :
    Except HttpFailure (PullKey → PullPage) := do
  let risks ← page .risks
  let opportunities ← page .opportunities
  let actions ← page .actions
  let assessments ← page .assessments
  let helpdeskTickets ← page .helpdeskTickets
  return fun
    | .risks => risks
    | .opportunities => opportunities
    | .actions => actions
    | .assessments => assessments
    | .helpdeskTickets => helpdeskTickets

def pullSince (hardCap : ℕ) (d : Data) (projectId : Uuid) (since : ℕ) (limit : Option ℕ)
    (cursors : PullKey → Option Cursor) (snapshotSequence : Option ℕ) :
    Except HttpFailure PullResponse :=
  match d.lastSequence projectId with
  | none => .error 500
  | some current =>
    let snapshot := snapshotSequence.getD current
    if snapshot < since then .error 400
    else if current < snapshot then .error 400
    else
      (pullPages fun key ↦ pullPage (entityFeed d projectId key) (limit.getD hardCap) since
        snapshot (cursors key)).bind fun pages ↦
        if limit = none ∧ PullKey.all.any (fun key ↦ (pages key).hasMore) then .error 413
        else .ok
          { serverSequence := snapshot
            rows := fun key ↦ (pages key).rows
            paging := limit.map fun _ ↦
              (fun key ↦ (pages key).hasMore, fun key ↦ (pages key).cursor) }

theorem parseSequenceCursor_render {since snapshot n : ℕ} (hlo : since ≤ n) (hhi : n ≤ snapshot) :
    parseSequenceCursor (some (renderCursor n)) since snapshot = .ok n := by
  have hsplit : Text.splitOnce ':' (renderCursor n) =
      ("seq".toList, some (Nat.toDigits 10 n)) := rfl
  have hne : renderCursor n ≠ [] := by simp [renderCursor]
  have hbounds : ((since : ℤ) ≤ (n : ℤ)) ∧ (n : ℤ) ≤ (snapshot : ℤ) := by omega
  simp [parseSequenceCursor, hne, hsplit, Text.writtenInt_toDigits, hbounds]

theorem pullSince_rows {hardCap : ℕ} {d : Data} {projectId : Uuid} {since : ℕ} {limit : Option ℕ}
    {cursors : PullKey → Option Cursor} {snapshot : Option ℕ} {response : PullResponse}
    (h : pullSince hardCap d projectId since limit cursors snapshot = .ok response) {key : PullKey}
    {r : Row} (hr : r ∈ response.rows key) : r ∈ entityFeed d projectId key := by
  have hpage : ∀ {feed : List Row} {limit since snapshot : ℕ} {cur : Option Cursor}
      {page : PullPage},
      pullPage feed limit since snapshot cur = .ok page → page.rows ⊆ feed := by
    intro feed limit since snapshot cur page hpage
    obtain ⟨from', -, rfl⟩ := Result.map_ok hpage
    have hselect : selectRows feed limit from' snapshot ⊆ feed := by
      intro x hx
      unfold selectRows at hx
      split at hx
      · exact (mem_window.mp hx).1
      · exact (mem_window.mp (List.mem_of_mem_take hx)).1
    intro x hx
    unfold pageOf at hx
    dsimp only at hx
    split at hx
    · exact hselect (List.mem_of_mem_take hx)
    · exact hselect hx
  unfold pullSince at h
  split at h
  · cases h
  · dsimp only at h
    split at h
    · cases h
    · split at h
      · cases h
      · obtain ⟨pages, hpages, h⟩ := Result.bind_ok h
        split at h
        · cases h
        · cases h
          obtain ⟨risks, hrisks, hpages⟩ := Result.bind_ok hpages
          obtain ⟨opportunities, hopportunities, hpages⟩ := Result.bind_ok hpages
          obtain ⟨actions, hactions, hpages⟩ := Result.bind_ok hpages
          obtain ⟨assessments, hassessments, hpages⟩ := Result.bind_ok hpages
          obtain ⟨tickets, htickets, hpages⟩ := Result.bind_ok hpages
          cases hpages
          cases key with
          | risks => exact hpage hrisks hr
          | opportunities => exact hpage hopportunities hr
          | actions => exact hpage hactions hr
          | assessments => exact hpage hassessments hr
          | helpdeskTickets => exact hpage htickets hr

theorem renderCursor_inj {m n : ℕ} (h : renderCursor m = renderCursor n) : m = n := by
  have hm := parseSequenceCursor_render (le_refl m) (le_refl m)
  have hdigits : Nat.toDigits 10 m = Nat.toDigits 10 n := List.append_cancel_left h
  have hint := Text.writtenInt_toDigits m
  rw [hdigits, Text.writtenInt_toDigits] at hint
  exact_mod_cast (Option.some.inj hint).symm

theorem pageOf_selectRows (feed : List Row) {limit : ℕ} (since snapshot : ℕ)
    (hlimit : limit ≠ 0) :
    let w := window Row.changeSequence since snapshot feed
    pageOf limit since (selectRows feed limit since snapshot) =
      ⟨w.take limit, decide (limit < w.length),
        renderCursor (cursor Row.changeSequence since (w.take limit))⟩ := by
  intro w
  have hselect : selectRows feed limit since snapshot = w.take (limit + 1) := if_neg hlimit
  have hmore : moreRows limit (w.take (limit + 1)) = decide (limit < w.length) := by
    simp [moreRows, hlimit]
  have hkept : (if decide (limit < w.length) = true then (w.take (limit + 1)).take limit
      else w.take (limit + 1)) = w.take limit := by
    split
    · rw [List.take_take, Nat.min_eq_left (Nat.le_succ limit)]
    · rename_i hle
      have hshort : w.length ≤ limit := by simpa using hle
      rw [List.take_of_length_le (by omega), List.take_of_length_le hshort]
  simp only [pageOf, hselect, hmore, hkept]

theorem pullSince_page {hardCap : ℕ} {d : Data} {projectId : Uuid} {since limit current : ℕ}
    {cursors : PullKey → Option Cursor} {snapshotSequence : Option ℕ} {start : PullKey → ℕ}
    (hlimit : limit ≠ 0) (hlast : d.lastSequence projectId = some current)
    (hlo : since ≤ snapshotSequence.getD current) (hhi : snapshotSequence.getD current ≤ current)
    (hcur : ∀ k, parseSequenceCursor (cursors k) since (snapshotSequence.getD current) =
      .ok (start k)) :
    let w := fun k ↦ window Row.changeSequence (start k) (snapshotSequence.getD current)
      (entityFeed d projectId k)
    pullSince hardCap d projectId since (some limit) cursors snapshotSequence =
      .ok ⟨snapshotSequence.getD current, fun k ↦ (w k).take limit,
        some (fun k ↦ decide (limit < (w k).length),
          fun k ↦ renderCursor (cursor Row.changeSequence (start k) ((w k).take limit)))⟩ := by
  intro w
  have hpage : ∀ k, pullPage (entityFeed d projectId k) limit since
      (snapshotSequence.getD current) (cursors k) =
      .ok ⟨(w k).take limit, decide (limit < (w k).length),
        renderCursor (cursor Row.changeSequence (start k) ((w k).take limit))⟩ := by
    intro k
    rw [pullPage, hcur k]
    exact congrArg Except.ok (pageOf_selectRows _ _ _ hlimit)
  have hpages : pullPages (fun k ↦ pullPage (entityFeed d projectId k) limit since
      (snapshotSequence.getD current) (cursors k)) =
      .ok fun k ↦ ⟨(w k).take limit, decide (limit < (w k).length),
        renderCursor (cursor Row.changeSequence (start k) ((w k).take limit))⟩ := by
    simp only [pullPages, hpage]
    refine congrArg Except.ok (funext fun k ↦ ?_)
    cases k <;> rfl
  simp only [pullSince, hlast, if_neg (not_lt.mpr hlo), if_neg (not_lt.mpr hhi), Option.getD_some,
    hpages]
  rfl

theorem pullSince_whole {hardCap : ℕ} (hcap : hardCap ≠ 0) {d : Data} {projectId : Uuid}
    {since current : ℕ} (hlast : d.lastSequence projectId = some current)
    (hsince : since ≤ current) :
    let w := fun k ↦ window Row.changeSequence since current (entityFeed d projectId k)
    pullSince hardCap d projectId since none (fun _ ↦ none) none =
      if PullKey.all.any (fun k ↦ hardCap < (w k).length) then .error 413
      else .ok ⟨current, w, none⟩ := by
  intro w
  have hpages : pullPages (fun k ↦ pullPage (entityFeed d projectId k) hardCap since current none) =
      .ok fun k ↦ ⟨(w k).take hardCap, decide (hardCap < (w k).length),
        renderCursor (cursor Row.changeSequence since ((w k).take hardCap))⟩ := by
    have hpage : ∀ k, pullPage (entityFeed d projectId k) hardCap since current none =
        .ok ⟨(w k).take hardCap, decide (hardCap < (w k).length),
          renderCursor (cursor Row.changeSequence since ((w k).take hardCap))⟩ := fun k ↦
      congrArg Except.ok (pageOf_selectRows _ _ _ hcap)
    simp only [pullPages, hpage]
    refine congrArg Except.ok (funext fun k ↦ ?_)
    cases k <;> rfl
  simp only [pullSince, hlast, Option.getD_none, if_neg (not_lt.mpr hsince),
    if_neg (lt_irrefl current), hpages, Except.bind]
  by_cases hbig : PullKey.all.any (fun k ↦ decide (hardCap < (w k).length)) = true
  · rw [if_pos ⟨trivial, hbig⟩, if_pos hbig]
  · rw [if_neg fun h ↦ hbig h.2, if_neg hbig]
    refine congrArg (fun rows ↦ Except.ok (PullResponse.mk current rows none)) (funext fun k ↦ ?_)
    refine List.take_of_length_le (not_lt.mp fun hlt ↦ hbig ?_)
    exact List.any_eq_true.mpr ⟨k, by cases k <;> decide, decide_eq_true hlt⟩

end RiskApp.Server

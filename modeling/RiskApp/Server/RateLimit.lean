import Mathlib.Algebra.Order.Floor.Ring
import Mathlib.Data.List.MinMax
import Mathlib.Data.Rat.Floor
import RiskApp.Lib.SlidingWindow
import RiskApp.Lib.Table

namespace RiskApp.Server

open Lib Lib.SlidingWindow

structure Limiter where
  limit : ℕ
  windowS : ℕ
  maxKeys : ℕ
  positive : 1 ≤ limit ∧ 1 ≤ windowS ∧ 1 ≤ maxKeys

/-- `_hits`, in the order of insertion; the deque of a key has its oldest time first. -/
abbrev Buckets (κ : Type) := List (κ × List ℚ)

structure Counters (κ : Type) where
  hits : Buckets κ
  checks : ℕ
  deriving DecidableEq

structure Answer where
  allowed : Bool
  retryAfter : ℤ
  deriving DecidableEq

variable {κ : Type} [DecidableEq κ]

namespace Buckets

def bucket (key : κ) (hits : Buckets κ) : List ℚ :=
  ((Table.find Prod.fst key hits).map Prod.snd).getD []

def pruneStaleKeys (cutoff : ℚ) (hits : Buckets κ) : Buckets κ :=
  hits.filter fun b ↦ b.2.getLast?.any (cutoff ≤ ·)

/-- The key that `min` finds; the last hit of an empty bucket, or of no bucket at all, raises. -/
def oldestKey (hits : Buckets κ) : Option κ :=
  if hits.any (·.2 = []) then none
  else (hits.argmin fun b ↦ b.2.getLastD 0).map Prod.fst

end Buckets

namespace Limiter

variable (l : Limiter)

def cutoff (now : ℚ) : ℚ := now - l.windowS

/-- `_make_room_for`, with the key that it evicts. -/
def makeRoomFor (key : κ) (cutoff : ℚ) (hits : Buckets κ) : Option (Option κ × Buckets κ) :=
  if (Table.find Prod.fst key hits).isSome then some (none, hits)
  else
    let hits := hits.pruneStaleKeys cutoff
    if hits.length < l.maxKeys then some (none, hits ++ [(key, [])])
    else hits.oldestKey.map fun oldest ↦
      (some oldest, hits.filter (·.1 ≠ oldest) ++ [(key, [])])

/-- `check` at the time `now`, with the key that it evicts; `none` is a raised exception. -/
def check (s : Counters κ) (now : ℚ) (key : κ) : Option (Answer × Option κ × Counters κ) := do
  let checks := s.checks + 1
  let hits := if checks % 256 = 0 then s.hits.pruneStaleKeys (l.cutoff now) else s.hits
  let (evicted, hits) ← l.makeRoomFor key (l.cutoff now) hits
  let (_, q) ← Table.find Prod.fst key hits
  let q := q.dropWhile (· < l.cutoff now)
  if l.limit ≤ q.length then
    let oldest ← q.head?
    some (⟨false, max 1 ⌈oldest + l.windowS - now⌉⟩, evicted,
      ⟨Table.replace Prod.fst (key, q) hits, checks⟩)
  else
    some (⟨true, 0⟩, evicted, ⟨Table.replace Prod.fst (key, q ++ [now]) hits, checks⟩)

/-- The checks of a run, at times that never go back, and the counters after them. -/
inductive Run : Log κ ℚ → Counters κ → Prop
  | start : Run [] ⟨[], 0⟩
  | check {log : Log κ ℚ} {s s' : Counters κ} {now : ℚ} {key : κ} {answer : Answer}
      {evicted : Option κ} (before : Run log s) (time : ∀ a ∈ log, a.now ≤ now)
      (checked : l.check s now key = some (answer, evicted, s')) :
      Run (⟨key, now, answer.allowed, evicted⟩ :: log) s'

def answer (now : ℚ) (recent : List ℚ) : Answer :=
  if l.limit ≤ recent.length then ⟨false, max 1 ⌈recent.headD 0 + l.windowS - now⌉⟩ else ⟨true, 0⟩

end Limiter

namespace Buckets

variable {hits : Buckets κ} {f : κ → List ℚ} {c : ℚ} {k key : κ}

theorem bucket_of_mem (hkeys : (hits.map Prod.fst).Nodup) {b : κ × List ℚ} (hb : b ∈ hits) :
    hits.bucket b.1 = b.2 := by
  rw [bucket, Table.find_of_mem Prod.fst hkeys hb]
  rfl

theorem bucket_of_find {b : κ × List ℚ} (h : Table.find Prod.fst k hits = some b) :
    hits.bucket k = b.2 := by
  rw [bucket, h]
  rfl

theorem bucket_of_absent (h : Table.find Prod.fst k hits = none) : hits.bucket k = [] := by
  rw [bucket, h]
  rfl

theorem bucket_replace {q : List ℚ} (h : (Table.find Prod.fst key hits).isSome) :
    bucket k (Table.replace Prod.fst (key, q) hits) = if k = key then q else hits.bucket k := by
  split
  · rename_i hk
    obtain ⟨b, hb⟩ := Option.isSome_iff_exists.mp h
    have hex : ∃ y ∈ hits, y.1 = key :=
      ⟨b, Table.mem_of_find Prod.fst hb, Table.key_of_find Prod.fst hb⟩
    rw [hk, bucket, Table.find_replace_self (x := (key, q)) Prod.fst hex]
    rfl
  · rename_i hk
    rw [bucket, Table.find_replace_of_ne Prod.fst hits hk, bucket]

theorem bucket_append_new (h : Table.find Prod.fst key hits = none) :
    bucket k (hits ++ [(key, [])]) = hits.bucket k := by
  rw [bucket, Table.find_append, Table.find_singleton]
  by_cases hk : key = k
  · rw [← hk, h, if_pos rfl, bucket, h]
    rfl
  · rw [if_neg hk, Option.or_none, bucket]

/-- The buckets of unique keys hold all hits of the keys that are not too old. -/
structure Mirrors (c : ℚ) (f : κ → List ℚ) (hits : Buckets κ) : Prop where
  keys : (hits.map Prod.fst).Nodup
  trimmed : ∀ k, Trimmed c (f k) (hits.bucket k)

namespace Mirrors

theorem mono {d : ℚ} (h : Mirrors c f hits) (hle : c ≤ d) : Mirrors d f hits :=
  ⟨h.keys, fun k ↦ (h.trimmed k).mono hle⟩

theorem filter (h : Mirrors c f hits) {p : κ × List ℚ → Bool} {g : κ → List ℚ}
    (hkept : ∀ b ∈ hits, p b = true → g b.1 = f b.1)
    (hgone : ∀ k, (∀ b ∈ hits, b.1 = k → p b = false) → Trimmed c (g k) []) :
    Mirrors c g (hits.filter p) := by
  refine ⟨h.keys.sublist (List.filter_sublist.map _), fun k ↦ ?_⟩
  by_cases hk : ∃ b ∈ hits, b.1 = k ∧ p b = true
  · obtain ⟨b, hb, rfl, hp⟩ := hk
    have hkeys : ((hits.filter p).map Prod.fst).Nodup :=
      h.keys.sublist (List.filter_sublist.map _)
    rw [bucket_of_mem hkeys (List.mem_filter.mpr ⟨hb, hp⟩), hkept b hb hp,
      ← bucket_of_mem h.keys hb]
    exact h.trimmed b.1
  · have hnone : Table.find Prod.fst k (hits.filter p) = none := by
      refine (Table.find_eq_none Prod.fst).mpr fun b hb hbk ↦ hk ?_
      obtain ⟨hb, hp⟩ := List.mem_filter.mp hb
      exact ⟨b, hb, hbk, hp⟩
    rw [bucket_of_absent hnone]
    exact hgone k fun b hb hbk ↦ Bool.eq_false_iff.mpr fun hp ↦ hk ⟨b, hb, hbk, hp⟩

theorem pruneStaleKeys (h : Mirrors c f hits) (hs : ∀ k, (f k).Pairwise (· ≤ ·)) :
    Mirrors c f (hits.pruneStaleKeys c) := by
  refine h.filter (fun _ _ _ ↦ rfl) fun k hgone ↦ ?_
  refine (h.trimmed k).drop (hs k) fun t ht ↦ ?_
  cases hfind : Table.find Prod.fst k hits with
  | none =>
    rw [bucket_of_absent hfind] at ht
    cases ht
  | some b =>
    have hstale := hgone b (Table.mem_of_find Prod.fst hfind) (Table.key_of_find Prod.fst hfind)
    rw [bucket_of_find hfind] at ht
    rw [Option.mem_def.mp ht, Option.any_some, decide_eq_false_iff_not, not_le] at hstale
    exact hstale

theorem evict (h : Mirrors c f hits) (oldest : κ) :
    Mirrors c (fun k ↦ if some oldest = some k then [] else f k)
      (hits.filter (·.1 ≠ oldest)) := by
  refine h.filter (fun b _ hp ↦ if_neg fun he ↦ ?_) fun k hgone ↦ ?_
  · exact (by simpa using hp : b.1 ≠ oldest) (Option.some.inj he).symm
  · split
    · exact .refl c []
    · rename_i hne
      have hnone : Table.find Prod.fst k hits = none := by
        refine (Table.find_eq_none Prod.fst).mpr fun b hb hbk ↦ hne ?_
        have hb := hgone b hb hbk
        rw [decide_eq_false_iff_not, not_not] at hb
        rw [← hb, hbk]
      have ht := h.trimmed k
      rwa [bucket_of_absent hnone] at ht

theorem append_new (h : Mirrors c f hits) (hnew : Table.find Prod.fst key hits = none) :
    Mirrors c f (hits ++ [(key, [])]) := by
  refine ⟨?_, fun k ↦ bucket_append_new hnew ▸ h.trimmed k⟩
  rw [List.map_append]
  refine List.nodup_append.mpr ⟨h.keys, List.nodup_singleton _, fun k hk k' hk' he ↦ ?_⟩
  obtain ⟨b, hb, rfl⟩ := List.mem_map.mp hk
  exact (Table.find_eq_none Prod.fst).mp hnew b hb (he.trans (List.mem_singleton.mp hk'))

end Mirrors

omit [DecidableEq κ] in
theorem oldestKey_isSome (hne : hits ≠ []) (hfilled : ∀ b ∈ hits, b.2 ≠ []) :
    ∃ oldest, hits.oldestKey = some oldest ∧ oldest ∈ hits.map Prod.fst := by
  have hany : ¬ hits.any (·.2 = []) = true := by
    intro hany
    obtain ⟨b, hb, he⟩ := List.any_eq_true.mp hany
    exact hfilled b hb (of_decide_eq_true he)
  unfold oldestKey
  rw [if_neg hany]
  cases hmin : hits.argmin fun b ↦ b.2.getLastD 0 with
  | none => exact absurd (List.argmin_eq_none.mp hmin) hne
  | some b => exact ⟨b.1, rfl, List.mem_map_of_mem (List.argmin_mem hmin)⟩

end Buckets

namespace Limiter

open Buckets

variable {l : Limiter} {hits : Buckets κ} {f : κ → List ℚ} {c now : ℚ} {key : κ} {log : Log κ ℚ}
  {s s' : Counters κ}

theorem cutoff_mono (l : Limiter) {t t' : ℚ} (h : t ≤ t') : l.cutoff t ≤ l.cutoff t' :=
  sub_le_sub_right h _

/-- What a check knows of the table once it has made room. -/
structure Room (l : Limiter) (c : ℚ) (f : κ → List ℚ) (key : κ) (evicted : Option κ)
    (hits : Buckets κ) : Prop where
  other : evicted ≠ some key
  present : (Table.find Prod.fst key hits).isSome
  size : hits.length ≤ l.maxKeys
  limited : ∀ b ∈ hits, b.2.length ≤ l.limit
  filled : ∀ b ∈ hits, b.1 ≠ key → b.2 ≠ []
  mirrors : Mirrors c (fun k ↦ if evicted = some k then [] else f k) hits

theorem room_new {evicted : Option κ} (hother : evicted ≠ some key)
    (hnew : Table.find Prod.fst key hits = none) (hsize : hits.length < l.maxKeys)
    (hlimited : ∀ b ∈ hits, b.2.length ≤ l.limit) (hfilled : ∀ b ∈ hits, b.2 ≠ [])
    (h : Mirrors c (fun k ↦ if evicted = some k then [] else f k) hits) :
    Room l c f key evicted (hits ++ [(key, [])]) := by
  refine ⟨hother, ?_, ?_, fun b hb ↦ ?_, fun b hb hne ↦ ?_, h.append_new hnew⟩
  · rw [Table.find_append, hnew, Table.find_singleton, if_pos rfl]
    rfl
  · rw [List.length_append]
    exact hsize
  · rcases List.mem_append.mp hb with hb | hb
    · exact hlimited b hb
    · rw [List.mem_singleton.mp hb]
      exact Nat.zero_le _
  · rcases List.mem_append.mp hb with hb | hb
    · exact hfilled b hb
    · exact absurd (congrArg Prod.fst (List.mem_singleton.mp hb)) hne

/-- Room is always found, at the cost of at most one other key. -/
theorem makeRoomFor_room (h : Mirrors c f hits) (hs : ∀ k, (f k).Pairwise (· ≤ ·))
    (hsize : hits.length ≤ l.maxKeys) (hlimited : ∀ b ∈ hits, b.2.length ≤ l.limit)
    (hfilled : ∀ b ∈ hits, b.2 ≠ []) (key : κ) : ∃ evicted hits',
    l.makeRoomFor key c hits = some (evicted, hits') ∧ Room l c f key evicted hits' := by
  unfold makeRoomFor
  split
  · rename_i hpresent
    refine ⟨none, hits, rfl, ⟨by simp, hpresent, hsize, hlimited, fun b hb _ ↦ hfilled b hb, ?_⟩⟩
    simpa using h
  · rename_i habsent
    rw [Option.not_isSome_iff_eq_none, Table.find_eq_none] at habsent
    have hsub : ∀ b ∈ hits.pruneStaleKeys c, b ∈ hits := fun b hb ↦ (List.mem_filter.mp hb).1
    have hpruned := h.pruneStaleKeys hs
    have hshorter : (hits.pruneStaleKeys c).length ≤ l.maxKeys :=
      (List.length_filter_le _ _).trans hsize
    generalize hits.pruneStaleKeys c = pruned at hsub hpruned hshorter
    have hfilled' : ∀ b ∈ pruned, b.2 ≠ [] := fun b hb ↦ hfilled b (hsub b hb)
    have hlimited' : ∀ b ∈ pruned, b.2.length ≤ l.limit := fun b hb ↦ hlimited b (hsub b hb)
    have hnew : Table.find Prod.fst key pruned = none :=
      (Table.find_eq_none Prod.fst).mpr fun b hb ↦ habsent b (hsub b hb)
    dsimp only
    split
    · rename_i hfree
      refine ⟨none, _, rfl, room_new (by simp) hnew hfree hlimited' hfilled' ?_⟩
      simpa using hpruned
    · rename_i hfull
      have hne : pruned ≠ [] := by
        rintro rfl
        exact hfull (Nat.lt_of_lt_of_le Nat.zero_lt_one l.positive.2.2)
      obtain ⟨oldest, holdest, hmem⟩ := oldestKey_isSome hne hfilled'
      rw [holdest]
      refine ⟨some oldest, _, rfl, room_new ?_ ?_ ?_ ?_ ?_ (hpruned.evict oldest)⟩
      · intro he
        obtain ⟨b, hb, hbk⟩ := List.mem_map.mp hmem
        exact (Table.find_eq_none Prod.fst).mp hnew b hb (hbk.trans (Option.some.inj he))
      · exact (Table.find_eq_none Prod.fst).mpr fun b hb ↦
          (Table.find_eq_none Prod.fst).mp hnew b (List.mem_filter.mp hb).1
      · obtain ⟨b, hb, hbk⟩ := List.mem_map.mp hmem
        refine (List.length_filter_lt_length_iff_exists.mpr ⟨b, hb, ?_⟩).trans_le hshorter
        simpa using hbk
      · exact fun b hb ↦ hlimited' b (List.mem_filter.mp hb).1
      · exact fun b hb ↦ hfilled' b (List.mem_filter.mp hb).1

/-- The counters are within their bounds and hold all hits that are still in the window. -/
structure Inv (l : Limiter) (log : Log κ ℚ) (s : Counters κ) : Prop where
  ordered : Ordered log
  size : s.hits.length ≤ l.maxKeys
  limited : ∀ b ∈ s.hits, b.2.length ≤ l.limit
  filled : ∀ b ∈ s.hits, b.2 ≠ []
  mirrors : ∀ c, (∀ a ∈ log, l.cutoff a.now ≤ c) → Mirrors c (live · log) s.hits

theorem Inv.start (l : Limiter) : Inv l ([] : Log κ ℚ) ⟨[], 0⟩ :=
  ⟨List.Pairwise.nil, Nat.zero_le _, fun _ hb ↦ absurd hb List.not_mem_nil,
    fun _ hb ↦ absurd hb List.not_mem_nil, fun c _ ↦ ⟨List.nodup_nil, fun _ ↦ .refl c []⟩⟩

theorem Room.replaced {evicted : Option κ} (h : Room l c (live · log) key evicted hits)
    {q : List ℚ} {allowed : Bool} (hq : q ≠ []) (hlength : q.length ≤ l.limit)
    (htrimmed :
      Trimmed c (live key log ++ (⟨key, now, allowed, evicted⟩ : Attempt κ ℚ).hit key) q) :
    let hits' := Table.replace Prod.fst (key, q) hits
    hits'.length ≤ l.maxKeys ∧ (∀ b ∈ hits', b.2.length ≤ l.limit) ∧ (∀ b ∈ hits', b.2 ≠ []) ∧
      Mirrors c (live · (⟨key, now, allowed, evicted⟩ :: log)) hits' := by
  have hkeys : (Table.replace Prod.fst (key, q) hits).map Prod.fst = hits.map Prod.fst := by
    rw [Table.replace, List.map_map]
    refine List.map_congr_left fun b _ ↦ ?_
    rw [Function.comp_apply]
    split
    · rename_i he
      exact he.symm
    · rfl
  refine ⟨(List.length_map _).trans_le h.size, fun b hb ↦ ?_, fun b hb ↦ ?_, ?_, fun k ↦ ?_⟩
  · rcases Table.mem_replace Prod.fst hb with rfl | ⟨hb, -⟩
    · exact hlength
    · exact h.limited b hb
  · rcases Table.mem_replace Prod.fst hb with rfl | ⟨hb, hne⟩
    · exact hq
    · exact h.filled b hb hne
  · rw [hkeys]
    exact h.mirrors.keys
  · rw [bucket_replace h.present, live]
    by_cases hk : k = key
    · rw [hk, if_pos rfl, if_neg h.other]
      exact htrimmed
    · rw [if_neg hk, hit_of_ne (Ne.symm hk), List.append_nil]
      exact h.mirrors.trimmed k

theorem Inv.cons {a : Attempt κ ℚ} (h : Inv l log s) (htime : ∀ b ∈ log, b.now ≤ a.now)
    (hsize : hits.length ≤ l.maxKeys) (hlimited : ∀ b ∈ hits, b.2.length ≤ l.limit)
    (hfilled : ∀ b ∈ hits, b.2 ≠ []) (hmirrors : Mirrors (l.cutoff a.now) (live · (a :: log)) hits)
    (checks : ℕ) : Inv l (a :: log) ⟨hits, checks⟩ :=
  ⟨List.pairwise_cons.mpr ⟨htime, h.ordered⟩, hsize, hlimited, hfilled,
    fun _ hc ↦ hmirrors.mono (hc a List.mem_cons_self)⟩

theorem Inv.recent_bucket (h : Inv l log s) (htime : ∀ a ∈ log, a.now ≤ now) (key : κ) :
    recent (l.cutoff now) (s.hits.bucket key) = recent (l.cutoff now) (live key log) :=
  ((h.mirrors _ fun a ha ↦ l.cutoff_mono (htime a ha)).trimmed key).recent_eq

theorem Inv.recent_length (h : Inv l log s) (htime : ∀ a ∈ log, a.now ≤ now) (key : κ) :
    (recent (l.cutoff now) (live key log)).length ≤ l.limit := by
  rw [← h.recent_bucket htime key]
  refine (List.length_filter_le _ _).trans ?_
  cases hfind : Table.find Prod.fst key s.hits with
  | none =>
    rw [bucket_of_absent hfind]
    exact Nat.zero_le _
  | some b =>
    rw [bucket_of_find hfind]
    exact h.limited b (Table.mem_of_find Prod.fst hfind)

/-- A check answers as if it kept the hits of the key, less those lost with an evicted bucket. -/
theorem Inv.check (h : Inv l log s) (htime : ∀ a ∈ log, a.now ≤ now) (key : κ) :
    ∃ evicted s',
      l.check s now key = some (l.answer now (recent (l.cutoff now) (live key log)), evicted, s') ∧
      evicted ≠ some key ∧
      Inv l (⟨key, now, (l.answer now (recent (l.cutoff now) (live key log))).allowed, evicted⟩ ::
        log) s' := by
  have hsorted : ∀ k, (live k log).Pairwise (· ≤ ·) := fun k ↦ live_sorted h.ordered
  have hmirrors : Mirrors (l.cutoff now) (live · log) s.hits :=
    h.mirrors _ fun a ha ↦ l.cutoff_mono (htime a ha)
  obtain ⟨swept, hswept, hsub, hm⟩ : ∃ swept : Buckets κ,
      swept = (if (s.checks + 1) % 256 = 0 then s.hits.pruneStaleKeys (l.cutoff now) else s.hits) ∧
      swept.Sublist s.hits ∧ Mirrors (l.cutoff now) (live · log) swept := by
    refine ⟨_, rfl, ?_⟩
    split
    · exact ⟨List.filter_sublist, hmirrors.pruneStaleKeys hsorted⟩
    · exact ⟨List.Sublist.refl _, hmirrors⟩
  obtain ⟨evicted, hits, hroom, room⟩ := makeRoomFor_room (l := l) hm hsorted
    (hsub.length_le.trans h.size) (fun b hb ↦ h.limited b (hsub.subset hb))
    (fun b hb ↦ h.filled b (hsub.subset hb)) key
  obtain ⟨b, hb⟩ := Option.isSome_iff_exists.mp room.present
  have htrimmed : Trimmed (l.cutoff now) (live key log) b.2 := by
    have ht := room.mirrors.trimmed key
    rwa [if_neg room.other, bucket_of_find hb] at ht
  have hq : b.2.dropWhile (· < l.cutoff now) = recent (l.cutoff now) (live key log) := by
    rw [dropWhile_eq_recent (htrimmed.sorted (hsorted key)), htrimmed.recent_eq]
  have hexpired : Trimmed (l.cutoff now) (live key log) (recent (l.cutoff now) (live key log)) :=
    hq ▸ htrimmed.expire
  have hlength := h.recent_length htime key
  have hcheck : l.check s now key =
      if l.limit ≤ (b.2.dropWhile (· < l.cutoff now)).length then
        (b.2.dropWhile (· < l.cutoff now)).head?.bind fun oldest ↦
          some (⟨false, max 1 ⌈oldest + l.windowS - now⌉⟩, evicted,
            ⟨Table.replace Prod.fst (key, b.2.dropWhile (· < l.cutoff now)) hits, s.checks + 1⟩)
      else some (⟨true, 0⟩, evicted, ⟨Table.replace Prod.fst
        (key, b.2.dropWhile (· < l.cutoff now) ++ [now]) hits, s.checks + 1⟩) := by
    simp only [Limiter.check, ← hswept, hroom, hb, Option.bind_eq_bind, Option.bind_some]
  rw [hcheck, hq]
  generalize recent (l.cutoff now) (live key log) = q at hexpired hlength
  unfold answer
  by_cases hdenied : l.limit ≤ q.length
  · have hne : q ≠ [] := List.ne_nil_of_length_pos (l.positive.1.trans hdenied)
    rw [if_pos hdenied, if_pos hdenied]
    obtain ⟨oldest, rest, rfl⟩ := List.exists_cons_of_ne_nil hne
    have hkept : Trimmed (l.cutoff now)
        (live key log ++ (⟨key, now, false, evicted⟩ : Attempt κ ℚ).hit key) (oldest :: rest) := by
      rwa [Attempt.hit, if_neg (by simp), List.append_nil]
    obtain ⟨hsize, hlimited, hfilled, hnew⟩ := room.replaced hne hlength hkept
    exact ⟨evicted, _, rfl, room.other, h.cons htime hsize hlimited hfilled hnew _⟩
  · have hkept : Trimmed (l.cutoff now)
        (live key log ++ (⟨key, now, true, evicted⟩ : Attempt κ ℚ).hit key) (q ++ [now]) := by
      rw [Attempt.hit, if_pos ⟨rfl, rfl⟩]
      exact hexpired.append [now]
    have hlength' : (q ++ [now]).length ≤ l.limit := by
      rw [List.length_append]
      exact Nat.lt_of_not_le hdenied
    rw [if_neg hdenied, if_neg hdenied]
    obtain ⟨hsize, hlimited, hfilled, hnew⟩ := room.replaced (by simp) hlength' hkept
    exact ⟨evicted, _, rfl, room.other, h.cons htime hsize hlimited hfilled hnew _⟩

theorem Run.inv (h : l.Run log s) : Inv l log s := by
  induction h with
  | start => exact Inv.start l
  | check before time checked ih =>
    obtain ⟨evicted, s', hcheck, -, hinv⟩ := ih.check time _
    obtain ⟨rfl, rfl, rfl⟩ : _ ∧ _ ∧ _ := by simpa using hcheck.symm.trans checked
    exact hinv

/-- At most `maxKeys` buckets, none of them empty, no lookup that fails, and the answers of the
plain sliding window to every key whose bucket was not evicted. -/
theorem limiter_exact (l : Limiter) (h : l.Run log s) :
    s.hits.length ≤ l.maxKeys ∧ (∀ b ∈ s.hits, b.2 ≠ []) ∧
    ∀ now, (∀ a ∈ log, a.now ≤ now) → ∀ key, ∃ answer evicted s',
      l.check s now key = some (answer, evicted, s') ∧
      (Kept (l.cutoff now) key log → (answer.allowed = true ↔
        (SlidingWindow.hits key log).countP (fun t ↦ l.cutoff now ≤ t ∧ t ≤ now) < l.limit)) := by
  refine ⟨h.inv.size, h.inv.filled, fun now htime key ↦ ?_⟩
  obtain ⟨evicted, s', hcheck, -, -⟩ := h.inv.check htime key
  refine ⟨_, evicted, s', hcheck, fun hkept ↦ ?_⟩
  have hcount : (SlidingWindow.hits key log).countP (fun t ↦ l.cutoff now ≤ t ∧ t ≤ now) =
      (recent (l.cutoff now) (live key log)).length := by
    rw [recent_live hkept, recent, ← List.countP_eq_length_filter]
    refine List.countP_congr fun t ht ↦ ?_
    obtain ⟨a, ha, -, -, rfl⟩ := mem_hits.mp ht
    simp [htime a ha]
  rw [hcount, answer]
  split
  · rename_i hdenied
    exact iff_of_false (by simp) (Nat.not_lt.mpr hdenied)
  · rename_i hallowed
    exact iff_of_true rfl (Nat.lt_of_not_le hallowed)

theorem lt_max_ceil {d : ℚ} (h : 0 ≤ d) :
    d < ((max 1 ⌈d⌉ : ℤ) : ℚ) ↔ ∀ n : ℕ, 1 ≤ n → d ≠ n := by
  constructor
  · rintro hlt n hn rfl
    rw [Int.ceil_natCast, max_eq_right (by exact_mod_cast hn)] at hlt
    exact lt_irrefl _ (by exact_mod_cast hlt)
  · intro hwhole
    have hle : d ≤ ((max 1 ⌈d⌉ : ℤ) : ℚ) :=
      (Int.le_ceil d).trans (by exact_mod_cast le_max_right 1 ⌈d⌉)
    refine lt_of_le_of_ne hle fun he ↦ ?_
    have hone : (1 : ℤ) ≤ max 1 ⌈d⌉ := le_max_left 1 _
    refine hwhole (max 1 ⌈d⌉).toNat (by omega) ?_
    have hcast : (((max 1 ⌈d⌉).toNat : ℤ) : ℚ) = ((max 1 ⌈d⌉ : ℤ) : ℚ) := by
      rw [Int.toNat_of_nonneg (by omega)]
    exact he.trans hcast.symm

section RetryAfter

variable {t : ℚ} {r : ℤ} {evicted : Option κ}

theorem Run.denied (h : l.Run log s) (time : ∀ a ∈ log, a.now ≤ t)
    (denied : l.check s t key = some (⟨false, r⟩, evicted, s')) : evicted ≠ some key ∧
    ∃ oldest rest, recent (l.cutoff t) (live key log) = oldest :: rest ∧
      (oldest :: rest).length = l.limit ∧ r = max 1 ⌈oldest + l.windowS - t⌉ := by
  obtain ⟨ev, s₁, hcheck, hother, -⟩ := h.inv.check time key
  have hlength := h.inv.recent_length time key
  obtain ⟨hanswer, rfl, rfl⟩ : _ ∧ _ ∧ _ := by simpa using hcheck.symm.trans denied
  refine ⟨hother, ?_⟩
  unfold answer at hanswer
  split at hanswer
  · rename_i hfull
    obtain ⟨oldest, rest, hq⟩ := List.exists_cons_of_ne_nil
      (List.ne_nil_of_length_pos (l.positive.1.trans hfull))
    rw [hq] at hanswer hfull hlength
    exact ⟨oldest, rest, hq, hlength.antisymm hfull, (congrArg Answer.retryAfter hanswer).symm⟩
  · cases hanswer

/-- Whoever waits is allowed once the oldest hit is strictly older than the window. -/
theorem answer_after {oldest : ℚ} {rest : List ℚ} {t' : ℚ}
    (hlength : (oldest :: rest).length = l.limit)
    (hsorted : (oldest :: rest).Pairwise (· ≤ ·)) :
    (l.answer t' (recent (l.cutoff t') (oldest :: rest))).allowed = true ↔
      oldest < l.cutoff t' := by
  have hallowed : (l.answer t' (recent (l.cutoff t') (oldest :: rest))).allowed = true ↔
      (recent (l.cutoff t') (oldest :: rest)).length < l.limit := by
    unfold answer
    split
    · rename_i hfull
      exact iff_of_false (by simp) (Nat.not_lt.mpr hfull)
    · rename_i hfree
      exact iff_of_true rfl (Nat.lt_of_not_le hfree)
  rw [hallowed, ← hlength, recent, List.length_filter_lt_length_iff_exists]
  constructor
  · rintro ⟨x, hx, hold⟩
    have hlt : x < l.cutoff t' := by simpa using hold
    rcases List.mem_cons.mp hx with rfl | hx
    · exact hlt
    · exact ((List.pairwise_cons.mp hsorted).1 x hx).trans_lt hlt
  · intro hlt
    exact ⟨oldest, List.mem_cons_self, by simpa using hlt⟩

/-- A denied key that waits `retryAfter` seconds is allowed, whoever else checks meanwhile, exactly
if the oldest hit does not leave the window a positive whole number of seconds later. -/
theorem retry_after_suffices_iff (l : Limiter) {s₁ : Counters κ} (h : l.Run log s)
    (time : ∀ a ∈ log, a.now ≤ t) (denied : l.check s t key = some (⟨false, r⟩, evicted, s₁)) :
    (∀ others s₂ t', l.Run (others ++ ⟨key, t, false, evicted⟩ :: log) s₂ →
      (∀ a ∈ others, a.key ≠ key ∧ a.now ≤ t') → t + r ≤ t' →
      ∃ answer evicted' s₃, l.check s₂ t' key = some (answer, evicted', s₃) ∧
        answer.allowed = true) ↔
    ∀ oldest ∈ (recent (l.cutoff t) (s.hits.bucket key)).head?, ∀ n : ℕ, 1 ≤ n →
      oldest + l.windowS - t ≠ n := by
  obtain ⟨hother, oldest, rest, hq, hlength, hr⟩ := h.denied time denied
  have hsorted : (oldest :: rest).Pairwise (· ≤ ·) :=
    hq ▸ (live_sorted h.inv.ordered).sublist List.filter_sublist
  have hrecent : l.cutoff t ≤ oldest := by
    have hmem : oldest ∈ recent (l.cutoff t) (live key log) := hq ▸ List.mem_cons_self
    exact of_decide_eq_true (List.mem_filter.mp hmem).2
  have hwait : 0 ≤ oldest + l.windowS - t := by
    rw [cutoff] at hrecent
    linarith
  have hlive : live key (⟨key, t, false, evicted⟩ :: log) = live key log := by
    rw [live, if_neg hother, Attempt.hit, if_neg (by simp), List.append_nil]
  have hcutoff : ∀ t', t + r ≤ t' → oldest + l.windowS - t < r → oldest < l.cutoff t' := by
    intro t' ht' hlt
    rw [cutoff]
    linarith
  rw [h.inv.recent_bucket time key, hq, List.head?_cons]
  simp only [Option.mem_some_iff, forall_eq']
  rw [← lt_max_ceil hwait, ← hr]
  constructor
  · intro hallowed
    have hrun : l.Run ([] ++ ⟨key, t, false, evicted⟩ :: log) s₁ := .check h time denied
    have htime : ∀ a ∈ (⟨key, t, false, evicted⟩ :: log : Log κ ℚ), a.now ≤ t + r := by
      have hpos : (0 : ℚ) ≤ r := by
        rw [hr]
        exact_mod_cast (zero_le_one.trans (le_max_left 1 _) : (0 : ℤ) ≤ max 1 _)
      intro a ha
      rcases List.mem_cons.mp ha with rfl | ha
      · exact le_add_of_nonneg_right hpos
      · exact (time a ha).trans (le_add_of_nonneg_right hpos)
    obtain ⟨answer, evicted', s₃, hcheck, hyes⟩ := hallowed [] s₁ (t + r) hrun
      (fun a ha ↦ absurd ha List.not_mem_nil) le_rfl
    obtain ⟨evicted₂, s₄, hspec, -, -⟩ := hrun.inv.check htime key
    obtain ⟨rfl, -, -⟩ : _ ∧ _ ∧ _ := by simpa using hspec.symm.trans hcheck
    rw [hlive, ← recent_recent (l.cutoff_mono (htime _ List.mem_cons_self)), hq,
      answer_after hlength hsorted, cutoff] at hyes
    linarith
  · intro hlt others s₂ t' hrun hothers ht'
    have hle : t ≤ t' := by
      have hpos : (0 : ℚ) ≤ r := hwait.trans hlt.le
      linarith
    have htime : ∀ a ∈ others ++ (⟨key, t, false, evicted⟩ :: log : Log κ ℚ), a.now ≤ t' := by
      intro a ha
      rcases List.mem_append.mp ha with ha | ha
      · exact (hothers a ha).2
      · rcases List.mem_cons.mp ha with rfl | ha
        · exact hle
        · exact (time a ha).trans hle
    obtain ⟨evicted', s₃, hcheck, -, -⟩ := hrun.inv.check htime key
    refine ⟨_, evicted', s₃, hcheck, ?_⟩
    rcases @live_append_of_ne _ _ _ key (⟨key, t, false, evicted⟩ :: log) others
        fun a ha ↦ (hothers a ha).1 with heq | heq
    · rw [heq, hlive, ← recent_recent (l.cutoff_mono hle), hq]
      exact (answer_after hlength hsorted).mpr (hcutoff t' ht' hlt)
    · rw [heq, answer, if_neg]
      exact Nat.not_le.mpr l.positive.1

end RetryAfter

section Sample

def loginLimiter : Limiter := ⟨1, 10, 2, by decide⟩

theorem loginLimiter_hit :
    loginLimiter.Run [⟨"ann", 0, true, none⟩] ⟨[("ann", [0])], 1⟩ :=
  @Run.check _ _ loginLimiter _ _ _ 0 "ann" ⟨true, 0⟩ none .start (by simp) rfl

def loginLog : Log String ℚ :=
  [⟨"cleo", 12, true, none⟩, ⟨"ann", 5, false, none⟩, ⟨"bob", 3, true, none⟩,
    ⟨"ann", 0, true, none⟩]

/-- When Cleo comes there is no room for her until Ann's bucket is pruned. -/
theorem loginLimiter_run : loginLimiter.Run loginLog ⟨[("bob", [3]), ("cleo", [12])], 4⟩ := by
  have hbob : loginLimiter.check ⟨[("ann", [0])], 1⟩ 3 "bob" =
      some (⟨true, 0⟩, none, ⟨[("ann", [0]), ("bob", [3])], 2⟩) := by decide +kernel
  have hann : loginLimiter.check ⟨[("ann", [0]), ("bob", [3])], 2⟩ 5 "ann" =
      some (⟨false, 5⟩, none, ⟨[("ann", [0]), ("bob", [3])], 3⟩) := by decide +kernel
  have hcleo : loginLimiter.check ⟨[("ann", [0]), ("bob", [3])], 3⟩ 12 "cleo" =
      some (⟨true, 0⟩, none, ⟨[("bob", [3]), ("cleo", [12])], 4⟩) := by decide +kernel
  exact ((loginLimiter_hit.check (by norm_num) hbob).check (by norm_num) hann).check
    (by norm_num) hcleo

theorem loginLog_kept (cutoff : ℚ) (key : String) : Kept cutoff key loginLog :=
  Kept.of_none_evicted (by simp [loginLog])

/-- At 13 the hit of 3 is still in the window, and the one of 0 is not. -/
theorem limiter_exact_sample :
    (∃ answer evicted s', loginLimiter.check ⟨[("bob", [3]), ("cleo", [12])], 4⟩ 13 "ann" =
      some (answer, evicted, s') ∧ answer.allowed = true) ∧
    ∃ answer evicted s', loginLimiter.check ⟨[("bob", [3]), ("cleo", [12])], 4⟩ 13 "bob" =
      some (answer, evicted, s') ∧ answer.allowed = false := by
  have hexact := (limiter_exact loginLimiter loginLimiter_run).2.2 13 (by norm_num [loginLog])
  obtain ⟨answer, evicted, s', hcheck, hallowed⟩ := hexact "ann"
  obtain ⟨answer', evicted', s'', hcheck', hallowed'⟩ := hexact "bob"
  refine ⟨⟨answer, evicted, s', hcheck, (hallowed (loginLog_kept _ _)).mpr (by decide +kernel)⟩,
    ⟨answer', evicted', s'', hcheck', Bool.eq_false_iff.mpr fun h ↦ ?_⟩⟩
  exact absurd ((hallowed' (loginLog_kept _ _)).mp h) (by decide +kernel)

/-- Half a second past a whole number of seconds the wait is rounded up to more than is left. -/
theorem retry_after_suffices_sample : ∃ answer evicted s₃,
    loginLimiter.check ⟨[("ann", [0])], 2⟩ (21 / 2) "ann" = some (answer, evicted, s₃) ∧
      answer.allowed = true := by
  have hdenied : loginLimiter.check ⟨[("ann", [0])], 1⟩ (11 / 2) "ann" =
      some (⟨false, 5⟩, none, ⟨[("ann", [0])], 2⟩) := by decide +kernel
  have hrun : loginLimiter.Run
      ([] ++ [⟨"ann", 11 / 2, false, none⟩, ⟨"ann", 0, true, none⟩]) ⟨[("ann", [0])], 2⟩ :=
    .check loginLimiter_hit (by norm_num) hdenied
  refine (retry_after_suffices_iff loginLimiter loginLimiter_hit (by norm_num) hdenied).mpr ?_ [] _
    _ hrun (by simp) (by norm_num)
  intro oldest holdest n _ he
  obtain ⟨-, rfl⟩ : (11 : ℚ) / 2 ≤ 10 ∧ 0 = oldest := by
    simpa [recent, loginLimiter, cutoff, Buckets.bucket, Table.find] using holdest
  have htwice : (2 * n : ℚ) = 9 := by
    rw [← he]
    norm_num [loginLimiter]
  have : 2 * n = 9 := by exact_mod_cast htwice
  omega

/-- Denied at 5 and told to wait 5 seconds, the key is denied again at 10. -/
theorem denied_again_after_waiting : ¬ ∀ (l : Limiter) (log : Log String ℚ)
    (s s₁ : Counters String) (t : ℚ) (key : String) (r : ℤ) (evicted : Option String),
    l.Run log s → (∀ a ∈ log, a.now ≤ t) → l.check s t key = some (⟨false, r⟩, evicted, s₁) →
    ∀ others s₂ t', l.Run (others ++ ⟨key, t, false, evicted⟩ :: log) s₂ →
      (∀ a ∈ others, a.key ≠ key ∧ a.now ≤ t') → t + r ≤ t' →
      ∃ answer evicted' s₃, l.check s₂ t' key = some (answer, evicted', s₃) ∧
        answer.allowed = true := by
  intro h
  have hdenied : loginLimiter.check ⟨[("ann", [0])], 1⟩ 5 "ann" =
      some (⟨false, 5⟩, none, ⟨[("ann", [0])], 2⟩) := by decide +kernel
  have hrun : loginLimiter.Run
      ([] ++ [⟨"ann", 5, false, none⟩, ⟨"ann", 0, true, none⟩]) ⟨[("ann", [0])], 2⟩ :=
    .check loginLimiter_hit (by simp) hdenied
  obtain ⟨answer, evicted, s₃, hcheck, hallowed⟩ := h loginLimiter _ _ _ 5 "ann" 5 none
    loginLimiter_hit (by simp) hdenied [] _ 10 hrun (by simp) (by norm_num)
  have hagain : loginLimiter.check ⟨[("ann", [0])], 2⟩ 10 "ann" =
      some (⟨false, 1⟩, none, ⟨[("ann", [0])], 3⟩) := by decide +kernel
  rw [hagain] at hcheck
  cases hcheck
  cases hallowed

end Sample

end Limiter

end RiskApp.Server

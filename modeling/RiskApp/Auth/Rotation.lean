import RiskApp.Auth.Families

namespace RiskApp.Auth

open Lib Relation

def Session.newId (ses : Session) : Option Uuid :=
  match ses.stage with
  | .claiming _ _ _ new => some new.id
  | .inserting _ _ new => some new.id
  | _ => none

/-- The one claimed row of a rotation, among rows that it only locked. -/
structure Claimed (tokens : Tokens) (presented parent : Uuid) (new : RefreshToken) (work : Tokens) :
    Prop where
  ids : work.ids.Nodup
  plain : new.replacedById = none
  claim : ∃ t ∈ tokens, ∃ now, t.id = parent ∧ t.revokedAt = none ∧ t.replacedById = none ∧
    t.userId = new.userId ∧ t.claimed new.id now ∈ work
  others : ∀ w ∈ work, w.id ≠ parent → w ∈ tokens
  origin : presented = parent ∨ tokens.Links presented parent

structure Revoking (tokens : Tokens) (now : Time) (todo : List Uuid) (work : Tokens) : Prop where
  nodup : (todo ++ work.ids).Nodup
  chosen : ∀ id ∈ todo, id ∈ tokens.ids
  row : ∀ w ∈ work, ∃ t ∈ tokens, w = t.revoked now

/-- What a call knows at each of its stages. -/
def Session.Ok (tokens : Tokens) (ses : Session) : Prop :=
  match ses.stage with
  | .selecting _ => ses.work = []
  | .claiming _ presented _ new => ses.work = [] ∧ new.replacedById = none ∧
      ∃ t ∈ tokens, t.id = presented ∧ t.userId = new.userId
  | .recovering _ presented userId _ => ses.work = [] ∧
      ∃ t ∈ tokens, t.id = presented ∧ t.userId = userId
  | .locking _ presented userId _ todo rows byId => ses.work = byId ++ rows ∧
      Locking tokens presented userId todo rows byId
  | .inserting presented parent new => Claimed tokens presented parent new ses.work
  | .revoking _ now todo => Revoking tokens now todo ses.work

structure Inv (s : Sys) : Prop where
  chains : Chains s.tokens
  ok : ∀ sid ses, s.sessions sid = some ses → ses.Ok s.tokens
  apart : ∀ i j a b, i ≠ j → s.sessions i = some a → s.sessions j = some b →
    ∀ id ∈ a.work.ids, id ∉ b.work.ids
  drawn : ∀ id ∈ s.tokens.ids, id ∈ s.drawn
  news : ∀ sid ses id, s.sessions sid = some ses → ses.newId = some id →
    id ∈ s.drawn ∧ id ∉ s.tokens.ids
  newsApart : ∀ i j a b id, i ≠ j → s.sessions i = some a → s.sessions j = some b →
    a.newId = some id → b.newId ≠ some id

section Frame

variable {tokens work new : Tokens}

theorem Claimed.commits {presented parent : Uuid} {n : RefreshToken}
    (h : Claimed tokens presented parent n work) (hc : Chains tokens) (hfresh : n.id ∉ tokens.ids) :
    Commits tokens work [n] := by
  obtain ⟨t, ht, now, rfl, hnone, hlink, huser, hmem⟩ := h.claim
  have heq : ∀ w ∈ work, w.id = t.id → w = t.claimed n.id now := fun w hw hid ↦
    List.inj_on_of_nodup_map h.ids hw hmem hid
  refine ⟨h.ids, fun w hw ↦ ?_, Or.inr ⟨n, rfl, hfresh, h.plain⟩,
    fun w hw w' hw' m hm hwl hwl' ↦ ?_⟩
  · by_cases hid : w.id = t.id
    · rw [heq w hw hid]
      exact ⟨t, ht, rfl, rfl, fun hsome ↦ rfl,
        Or.inr ⟨hnone, hlink, rfl, n, List.mem_singleton_self n, rfl, huser.symm⟩⟩
    · exact ⟨w, h.others w hw hid, rfl, rfl, id, Or.inl rfl⟩
  · obtain rfl := List.mem_singleton.mp hm
    have hclaimed : ∀ v ∈ work, v.replacedById = some m.id → v = t.claimed m.id now := by
      intro v hv hvl
      by_cases hid : v.id = t.id
      · exact heq v hv hid
      · exact absurd (hc.mem_of_links ⟨v, h.others v hv hid, rfl, hvl⟩).2 hfresh
    rw [hclaimed w hw hwl, hclaimed w' hw' hwl']

theorem Revoking.commits {now : Time} {todo : List Uuid} (h : Revoking tokens now todo work) :
    Commits tokens work [] := by
  refine ⟨(List.nodup_append.mp h.nodup).2.1, fun w hw ↦ ?_, Or.inl rfl,
    fun _ _ _ _ n hn ↦ absurd hn List.not_mem_nil⟩
  obtain ⟨t, ht, rfl⟩ := h.row w hw
  exact ⟨t, ht, rfl, rfl, fun _ ↦ rfl, Or.inl rfl⟩

theorem Session.Ok.frame {ses : Session} (h : ses.Ok tokens) (hc : Chains tokens)
    (hw : Commits tokens work new) (hapart : ∀ id ∈ ses.work.ids, id ∉ work.ids) :
    ses.Ok (Commits.result tokens work new) := by
  have howner : ∀ {id userId : Uuid}, (∃ t ∈ tokens, t.id = id ∧ t.userId = userId) →
      ∃ t ∈ Commits.result tokens work new, t.id = id ∧ t.userId = userId := by
    rintro id userId ⟨t, ht, hid, huser⟩
    obtain ⟨w, hmem, hwid, hs⟩ := hw.persists ht hc
    exact ⟨w, hmem, hwid.trans hid, hs.userId.trans huser⟩
  obtain ⟨tokenHash, stage, held⟩ := ses
  cases stage with
  | selecting attempt => exact h
  | claiming attempt presented now new => exact ⟨h.1, h.2.1, howner h.2.2⟩
  | recovering attempt presented userId now => exact ⟨h.1, howner h.2⟩
  | locking attempt presented userId now todo rows byId =>
    obtain ⟨hheld, hlock⟩ := h
    dsimp only at hheld hapart
    exact ⟨hheld, hlock.frame hc hw (hheld ▸ hapart)⟩
  | inserting presented parent n =>
    obtain ⟨hids, hplain, ⟨t, ht, now, rfl, hnone, hlink, huser, hmem⟩, hothers, horigin⟩ := h
    refine ⟨hids, hplain, ⟨t, Commits.kept_mem ht ?_, now, rfl, hnone, hlink, huser, hmem⟩,
      fun w hw' hid ↦ ?_, horigin.imp id (hw.links_mono hc)⟩
    · exact hapart t.id (Tokens.mem_ids.mpr ⟨_, hmem, rfl⟩)
    · exact Commits.kept_mem (hothers w hw' hid) (hapart w.id (List.mem_map_of_mem hw'))
  | revoking userId now todo =>
    obtain ⟨hnodup, hchosen, hrow⟩ := h
    refine ⟨hnodup, fun id hid ↦ ?_, fun w hw' ↦ ?_⟩
    · rw [hw.ids_result]
      exact List.mem_append_left _ (hchosen id hid)
    · obtain ⟨t, ht, rfl⟩ := hrow w hw'
      exact ⟨t, Commits.kept_mem ht (hapart t.id (Tokens.mem_ids.mpr ⟨_, hw', rfl⟩)), rfl⟩

theorem Claimed.of_claimable {t n : RefreshToken} {now : Time} (ht : t ∈ tokens)
    (hclaimable : t.claimable now = true) (huser : t.userId = n.userId)
    (hplain : n.replacedById = none) : Claimed tokens t.id t.id n [t.claimed n.id now] := by
  simp only [RefreshToken.claimable, Bool.and_eq_true, Option.isNone_iff_eq_none] at hclaimable
  refine ⟨by simp [Tokens.ids], hplain, ⟨t, ht, now, rfl, hclaimable.1.1, hclaimable.1.2, huser,
    List.mem_singleton_self _⟩, fun w hw hne ↦ ?_, Or.inl rfl⟩
  obtain rfl := List.mem_singleton.mp hw
  exact absurd rfl hne

theorem ids_replace_claimed (r : RefreshToken) (id : Uuid) (now : Time) (work : Tokens) :
    Tokens.ids (Table.replace RefreshToken.id (r.claimed id now) work) = work.ids :=
  Table.map_key_replace RefreshToken.id _ _

/-- The replacement of a token in its grace period is claimed among all the locked rows. -/
theorem Locking.claims {rows byId : Tokens} {userId : Uuid} {todo : List Uuid}
    {t r n : RefreshToken} {now : Time} (h : Locking tokens t.id userId todo rows byId)
    (ht : t ∈ byId ++ rows) (hr : r ∈ byId ++ rows) (hlink : t.replacedById = some r.id)
    (hclaimable : r.claimable now = true) (huser : userId = n.userId)
    (hplain : n.replacedById = none) : Claimed tokens t.id r.id n
      (Table.replace RefreshToken.id (r.claimed n.id now) (byId ++ rows)) := by
  simp only [RefreshToken.claimable, Bool.and_eq_true, Option.isNone_iff_eq_none] at hclaimable
  obtain ⟨hrt, hru⟩ := h.locked r hr
  refine ⟨?_, hplain, ⟨r, hrt, now, rfl, hclaimable.1.1, hclaimable.1.2, hru.trans huser,
    List.mem_map.mpr ⟨r, hr, if_pos rfl⟩⟩, fun w hw hne ↦ ?_,
    Or.inr ⟨t, (h.locked t ht).1, rfl, hlink⟩⟩
  · rw [ids_replace_claimed]
    exact (List.nodup_append.mp h.nodup).2.1
  · obtain ⟨v, hv, rfl⟩ := List.mem_map.mp hw
    split at hne
    · exact absurd rfl hne
    · rename_i hneq
      rw [if_neg hneq]
      exact (h.locked v hv).1

theorem Revoking.start (hc : Chains tokens) (now : Time) (p : RefreshToken → Bool) :
    Revoking tokens now (tokens.idsWhere p) [] := by
  refine ⟨by simpa [Tokens.ids] using Tokens.nodup_idsWhere hc.ids p, fun id hid ↦ ?_,
    fun w hw ↦ absurd hw List.not_mem_nil⟩
  obtain ⟨t, ht, -, rfl⟩ := Tokens.mem_idsWhere.mp hid
  exact List.mem_map_of_mem ht

theorem Revoking.row_revoked {now : Time} {todo : List Uuid} {t : RefreshToken}
    (h : Revoking tokens now (t.id :: todo) work) (ht : t ∈ tokens) :
    Revoking tokens now todo (work ++ [t.revoked now]) := by
  refine ⟨?_, fun x hx ↦ h.chosen x (List.mem_cons_of_mem _ hx), fun w hw ↦ ?_⟩
  · have hperm : List.Perm (todo ++ Tokens.ids (work ++ [t.revoked now]))
        (t.id :: todo ++ work.ids) := by
      rw [Tokens.ids, List.map_append, ← List.append_assoc]
      exact List.perm_append_singleton _ _
    exact hperm.nodup_iff.mpr h.nodup
  · rcases List.mem_append.mp hw with hw | hw
    · exact h.row w hw
    · exact ⟨t, ht, List.mem_singleton.mp hw⟩

end Frame

theorem Sys.rowFree_nil (s : Sys) (sid : ℕ) : ∀ id ∈ Tokens.ids [], s.rowFree sid id :=
  fun _ hid ↦ absurd hid List.not_mem_nil

namespace Inv

variable {s : Sys} {sid : ℕ}

theorem start (active : Uuid → Bool) : Inv (.start active) := by
  have hnone : ∀ {ses : Session} {p : Prop} {i : ℕ}, (Sys.start active).sessions i = some ses → p :=
    fun h ↦ by cases h
  refine ⟨⟨.nil, ?_, ?_, ?_, ⟨fun _ ↦ 0, ?_⟩⟩, fun _ _ h ↦ hnone h, fun _ _ _ _ _ h ↦ hnone h, ?_,
    fun _ _ _ h ↦ hnone h, fun _ _ _ _ _ _ h ↦ hnone h⟩
  · exact fun t ht ↦ absurd ht List.not_mem_nil
  · exact fun t ht ↦ absurd ht List.not_mem_nil
  · rintro a b c ⟨t, ht, -⟩
    cases ht
  · rintro a b ⟨t, ht, -⟩
    cases ht
  · exact fun t ht ↦ absurd ht List.not_mem_nil

theorem rowFree_of_held (h : Inv s) {ses : Session} (hses : s.sessions sid = some ses) {id : Uuid}
    (hid : id ∈ ses.work.ids) : s.rowFree sid id :=
  fun _ _ hne hother hin ↦ h.apart _ _ _ _ hne hother hses id hin hid

theorem put (h : Inv s) {ses : Option Session} {drawn : List Uuid}
    (hsub : ∀ id ∈ s.drawn, id ∈ drawn)
    (hok : ∀ x, ses = some x → x.Ok s.tokens)
    (hfree : ∀ x, ses = some x → ∀ id ∈ x.work.ids, s.rowFree sid id)
    (hnew : ∀ x id, ses = some x → x.newId = some id → id ∈ drawn ∧ id ∉ s.tokens.ids ∧
      ∀ j b, j ≠ sid → s.sessions j = some b → b.newId ≠ some id) :
    Inv { s.put sid ses with drawn := drawn } := by
  have hget : ∀ {i : ℕ} {a : Session}, (s.put sid ses).sessions i = some a →
      i = sid ∧ ses = some a ∨ i ≠ sid ∧ s.sessions i = some a := by
    intro i a ha
    by_cases hi : i = sid
    · subst hi
      exact Or.inl ⟨rfl, by simpa [Sys.put] using ha⟩
    · exact Or.inr ⟨hi, by simpa [Sys.put, Function.update_of_ne hi] using ha⟩
  refine ⟨h.chains, fun i a ha ↦ ?_, fun i j a b hij ha hb id hin hin' ↦ ?_,
    fun id hid ↦ hsub id (h.drawn id hid), fun i a id ha hid ↦ ?_,
    fun i j a b id hij ha hb hid hid' ↦ ?_⟩
  · rcases hget ha with ⟨-, ha⟩ | ⟨-, ha⟩
    · exact hok a ha
    · exact h.ok i a ha
  · rcases hget ha with ⟨hi, ha'⟩ | ⟨hi, ha'⟩ <;> rcases hget hb with ⟨hj, hb'⟩ | ⟨hj, hb'⟩
    · exact hij (hi.trans hj.symm)
    · exact hfree a ha' id hin j b hj hb' hin'
    · exact hfree b hb' id hin' i a hi ha' hin
    · exact h.apart i j a b hij ha' hb' id hin hin'
  · rcases hget ha with ⟨-, ha⟩ | ⟨-, ha⟩
    · exact ⟨(hnew a id ha hid).1, (hnew a id ha hid).2.1⟩
    · exact ⟨hsub id (h.news i a id ha hid).1, (h.news i a id ha hid).2⟩
  · rcases hget ha with ⟨hi, ha'⟩ | ⟨hi, ha'⟩ <;> rcases hget hb with ⟨hj, hb'⟩ | ⟨hj, hb'⟩
    · exact hij (hi.trans hj.symm)
    · exact (hnew a id ha' hid).2.2 j b hj hb' hid'
    · exact (hnew b id hb' hid').2.2 i a hi ha' hid
    · exact h.newsApart i j a b id hij ha' hb' hid hid'

theorem putSession (h : Inv s) {ses : Session} (hok : ses.Ok s.tokens)
    (hfree : ∀ id ∈ ses.work.ids, s.rowFree sid id)
    (hnew : ∀ id, ses.newId = some id → id ∈ s.drawn ∧ id ∉ s.tokens.ids ∧
      ∀ j b, j ≠ sid → s.sessions j = some b → b.newId ≠ some id) :
    Inv (s.put sid (some ses)) := by
  refine h.put (fun _ hid ↦ hid) (fun x hx ↦ ?_) (fun x hx ↦ ?_) fun x id hx hid ↦ ?_ <;>
    obtain rfl := Option.some.inj hx
  · exact hok
  · exact hfree
  · exact hnew id hid

theorem putPlain (h : Inv s) {ses : Session} (hok : ses.Ok s.tokens)
    (hfree : ∀ id ∈ ses.work.ids, s.rowFree sid id) (hplain : ses.newId = none) :
    Inv (s.put sid (some ses)) :=
  h.putSession hok hfree fun id hid ↦ by cases hplain.symm.trans hid

/-- The call draws the id of the token that it is going to insert. -/
theorem putDrawing (h : Inv s) {ses : Session} {id : Uuid} (hok : ses.Ok s.tokens)
    (hfree : ∀ id ∈ ses.work.ids, s.rowFree sid id) (hid : ses.newId = some id)
    (hnew : id ∉ s.drawn) : Inv { s.put sid (some ses) with drawn := id :: s.drawn } := by
  refine h.put (fun _ hid ↦ List.mem_cons_of_mem _ hid) (fun x hx ↦ ?_) (fun x hx ↦ ?_)
    fun x id' hx hid' ↦ ?_ <;> obtain rfl := Option.some.inj hx
  · exact hok
  · exact hfree
  · obtain rfl := Option.some.inj (hid.symm.trans hid')
    exact ⟨List.mem_cons_self, fun hin ↦ hnew (h.drawn _ hin),
      fun j b _ hb hbid ↦ hnew (h.news j b _ hb hbid).1⟩

theorem putNone (h : Inv s) : Inv (s.put sid none) :=
  h.put (fun _ hid ↦ hid) (fun _ hx ↦ by cases hx) (fun _ hx ↦ by cases hx)
    fun _ _ hx ↦ by cases hx

theorem putRetry (h : Inv s) (tokenHash : String) (attempt : ℕ) :
    Inv (s.put sid (Session.retry tokenHash attempt)) := by
  unfold Session.retry
  split
  · exact h.putPlain rfl (s.rowFree_nil sid) rfl
  · exact h.putNone

theorem rowFree_append (h : Inv s) {ses : Session} (hses : s.sessions sid = some ses)
    {t : RefreshToken} (free : s.rowFree sid t.id) :
    ∀ id ∈ Tokens.ids (ses.work ++ [t]), s.rowFree sid id := by
  intro id hin
  rw [Tokens.ids, List.map_append] at hin
  rcases List.mem_append.mp hin with hin | hin
  · exact h.rowFree_of_held hses hin
  · obtain rfl := List.mem_singleton.mp hin
    exact free

theorem committed (h : Inv s) {ses : Session} {work new : Tokens}
    (hses : s.sessions sid = some ses) (hw : Commits s.tokens work new)
    (hheld : ∀ id ∈ work.ids, id ∈ ses.work.ids) (hnew : ∀ n ∈ new, ses.newId = some n.id) :
    Inv (s.committed sid work new) := by
  have hget : ∀ {i : ℕ} {a : Session}, (s.committed sid work new).sessions i = some a →
      i ≠ sid ∧ s.sessions i = some a := by
    intro i a ha
    by_cases hi : i = sid
    · subst hi
      simp [Sys.committed] at ha
    · exact ⟨hi, by simpa [Sys.committed, Function.update_of_ne hi] using ha⟩
  have hids : (s.committed sid work new).tokens.ids = s.tokens.ids ++ new.ids := hw.ids_result
  refine ⟨hw.chains h.chains, fun i a ha ↦ ?_, fun i j a b hij ha hb ↦ ?_, fun id hid ↦ ?_,
    fun i a id ha hid ↦ ?_, fun i j a b id hij ha hb ↦ ?_⟩
  · obtain ⟨hi, ha⟩ := hget ha
    exact (h.ok i a ha).frame h.chains hw fun id hid hin ↦
      h.apart i sid a ses hi ha hses id hid (hheld id hin)
  · exact h.apart i j a b hij (hget ha).2 (hget hb).2
  · rw [hids] at hid
    rcases List.mem_append.mp hid with hid | hid
    · exact h.drawn id hid
    · obtain ⟨n, hn, rfl⟩ := Tokens.mem_ids.mp hid
      exact (h.news sid ses n.id hses (hnew n hn)).1
  · obtain ⟨hi, ha⟩ := hget ha
    obtain ⟨hdrawn, hnot⟩ := h.news i a id ha hid
    refine ⟨hdrawn, fun hin ↦ ?_⟩
    rw [hids] at hin
    rcases List.mem_append.mp hin with hin | hin
    · exact hnot hin
    · obtain ⟨n, hn, rfl⟩ := Tokens.mem_ids.mp hin
      exact h.newsApart i sid a ses n.id hi ha hses hid (hnew n hn)
  · exact h.newsApart i j a b id hij (hget ha).2 (hget hb).2

theorem issued (h : Inv s) {n : RefreshToken} (hnew : n.id ∉ s.drawn)
    (hplain : n.replacedById = none) :
    Inv { s with tokens := s.tokens ++ [n], drawn := n.id :: s.drawn } := by
  have hfresh : n.id ∉ s.tokens.ids := fun hin ↦ hnew (h.drawn _ hin)
  have hw : Commits s.tokens [] [n] := ⟨.nil, fun w hw ↦ absurd hw List.not_mem_nil,
    Or.inr ⟨n, rfl, hfresh, hplain⟩, fun w hw ↦ absurd hw List.not_mem_nil⟩
  have hresult : Commits.result s.tokens [] [n] = s.tokens ++ [n] := by
    simp [Commits.result, Table.overlay, Table.find]
  refine ⟨hresult ▸ hw.chains h.chains, fun i a ha ↦ ?_, h.apart, fun id hid ↦ ?_,
    fun i a id ha hid ↦ ?_, h.newsApart⟩
  · have hframe := (h.ok i a ha).frame h.chains hw fun _ _ ↦ List.not_mem_nil
    exact hresult ▸ hframe
  · rw [Tokens.ids, List.map_append] at hid
    rcases List.mem_append.mp hid with hid | hid
    · exact List.mem_cons_of_mem _ (h.drawn id hid)
    · obtain rfl := List.mem_singleton.mp hid
      exact List.mem_cons_self
  · obtain ⟨hdrawn, hnot⟩ := h.news i a id ha hid
    refine ⟨List.mem_cons_of_mem _ hdrawn, fun hin ↦ ?_⟩
    rw [Tokens.ids, List.map_append] at hin
    rcases List.mem_append.mp hin with hin | hin
    · exact hnot hin
    · obtain rfl := List.mem_singleton.mp hin
      exact hnew hdrawn

end Inv

theorem revokeFamily_id (family : List Uuid) (now : Time) (u : RefreshToken) :
    (revokeFamily family now u).id = u.id := by
  unfold revokeFamily
  split <;> rfl

theorem revokeFamily_succeeds (family : List Uuid) (now : Time) (u : RefreshToken) :
    u.Succeeds [] (revokeFamily family now u) := by
  unfold revokeFamily
  split
  · exact ⟨rfl, fun _ ↦ rfl, Or.inl rfl⟩
  · exact ⟨rfl, id, Or.inl rfl⟩

theorem ids_revokeFamily (family : List Uuid) (now : Time) (work : Tokens) :
    Tokens.ids (work.map (revokeFamily family now)) = work.ids := by
  rw [Tokens.ids, List.map_map]
  exact List.map_congr_left fun u _ ↦ revokeFamily_id family now u

theorem Locking.commits {tokens rows byId : Tokens} {presented userId : Uuid} {todo : List Uuid}
    (h : Locking tokens presented userId todo rows byId) (family : List Uuid) (now : Time) :
    Commits tokens ((byId ++ rows).map (revokeFamily family now)) [] := by
  refine ⟨?_, fun w hw ↦ ?_, Or.inl rfl, fun _ _ _ _ n hn ↦ absurd hn List.not_mem_nil⟩
  · rw [ids_revokeFamily]
    exact (List.nodup_append.mp h.nodup).2.1
  · obtain ⟨u, hu, rfl⟩ := List.mem_map.mp hw
    exact ⟨u, (h.locked u hu).1, (revokeFamily_id family now u).symm,
      revokeFamily_succeeds family now u⟩

section Steps

variable {cfg : Config} {s s' : Sys} {sid : ℕ} {event : Option Event}

theorem Inv.claimed (h : Inv s) {tokenHash : String} {attempt : ℕ} {now : Time}
    {new t : RefreshToken}
    (running : s.sessions sid = some ⟨tokenHash, .claiming attempt t.id now new, []⟩)
    (free : s.rowFree sid t.id) (ht : t ∈ s.tokens) (matched : t.claimable now = true) :
    Inv (s.put sid (some ⟨tokenHash, .inserting t.id t.id new, [t.claimed new.id now]⟩)) := by
  obtain ⟨-, hplain, u, hu, hid, huser⟩ := h.ok sid _ running
  obtain rfl := h.chains.eq_of_id hu ht hid
  refine h.putSession (Claimed.of_claimable ht matched huser hplain) (fun id hin ↦ ?_)
    fun id hid ↦ ?_
  · obtain rfl := List.mem_singleton.mp hin
    exact free
  · obtain ⟨hdrawn, hnot⟩ := h.news sid _ id running hid
    exact ⟨hdrawn, hnot, fun j b hj hb ↦ h.newsApart sid j _ b id hj.symm running hb hid⟩

theorem Inv.recovered (h : Inv s) {tokenHash newHash : String} {attempt : ℕ}
    {presented userId id : Uuid} {now : Time} {rows byId work : Tokens} {t r : RefreshToken}
    (running : s.sessions sid =
      some ⟨tokenHash, .locking attempt presented userId now [] rows byId, work⟩)
    (row : Tokens.token (byId ++ rows) presented = some t)
    (grace : Tokens.graceReplacement cfg (byId ++ rows) t now = some r) (new : id ∉ s.drawn) :
    Inv { s.put sid (some ⟨tokenHash, .inserting presented r.id
        (newRefreshToken cfg id newHash userId now),
        Table.replace RefreshToken.id (r.claimed id now) work⟩) with
      drawn := id :: s.drawn } := by
  obtain ⟨hwork, hlock⟩ := h.ok sid _ running
  obtain rfl : work = byId ++ rows := hwork
  obtain ⟨ht, rfl⟩ := Tokens.token_some row
  obtain ⟨hr, hlink, hclaimable⟩ := Tokens.graceReplacement_some grace
  refine h.putDrawing (hlock.claims ht hr hlink hclaimable rfl rfl) (fun id' hin ↦ ?_) rfl new
  rw [ids_replace_claimed] at hin
  exact h.rowFree_of_held running hin

theorem Step.inv (h : Inv s) (hs : Step cfg s sid event s') : Inv s' := by
  cases hs with
  | users => exact ⟨h.chains, h.ok, h.apart, h.drawn, h.news, h.newsApart⟩
  | issue free new => exact h.issued new rfl
  | rotate => exact h.putPlain rfl (s.rowFree_nil sid) rfl
  | refuse => exact h.putNone
  | @select _ _ _ _ _ t running found user unrevoked alive new =>
    exact h.putDrawing ⟨rfl, rfl, t, List.mem_of_find?_eq_some found, rfl, rfl⟩ (s.rowFree_nil sid)
      rfl new
  | @selectRevoked _ _ _ t running found =>
    exact h.putPlain ⟨rfl, t, List.mem_of_find?_eq_some found, rfl, rfl⟩ (s.rowFree_nil sid) rfl
  | claim running free row matched =>
    obtain ⟨ht, rfl⟩ := Tokens.token_some row
    exact h.claimed running free ht matched
  | claimLost => exact h.putRetry _ _
  | @insert _ presented parent new work running =>
    have hclaimed : Claimed s.tokens presented parent new work := h.ok sid _ running
    have hfresh := (h.news sid _ new.id running rfl).2
    refine h.committed running (hclaimed.commits h.chains hfresh) (fun _ hid ↦ hid) fun n hn ↦ ?_
    obtain rfl := List.mem_singleton.mp hn
    rfl
  | lockStart running =>
    obtain ⟨-, t, ht, hid, huser⟩ := h.ok sid _ running
    exact h.putPlain ⟨rfl, .start h.chains ht hid huser⟩ (s.rowFree_nil sid) rfl
  | @lockRow _ _ _ _ _ _ _ rows byId work t running free row =>
    obtain ⟨hwork, hlock⟩ := h.ok sid _ running
    obtain rfl : work = byId ++ rows := hwork
    rw [← (Tokens.token_some row).2] at free
    exact h.putPlain ⟨by rw [List.append_assoc], hlock.lockRow h.chains row⟩
      (h.rowFree_append running free) rfl
  | follow running links more =>
    obtain ⟨hwork, hlock⟩ := h.ok sid _ running
    refine h.putPlain ?_ (fun id hid ↦ h.rowFree_of_held running hid) rfl
    rw [links]
    exact ⟨by simpa using hwork, hlock.follow h.chains⟩
  | unrevoked => exact h.putRetry _ _
  | recover running done row revoked grace new => exact h.recovered running row grace new
  | @reuse _ _ _ _ now rows byId work _ running =>
    obtain ⟨hwork, hlock⟩ := h.ok sid _ running
    obtain rfl : work = byId ++ rows := hwork
    refine h.committed running (hlock.commits _ now) (fun id hid ↦ ?_) fun n hn ↦ ?_
    · rwa [ids_revokeFamily] at hid
    · cases hn
  | revokeSelect free => exact h.putPlain (.start h.chains _ _) (s.rowFree_nil sid) rfl
  | revokeRow running free row =>
    obtain ⟨hmem, rfl⟩ := Tokens.token_some row
    have hrev : Revoking s.tokens _ _ _ := h.ok sid _ running
    exact h.putPlain (hrev.row_revoked hmem) (h.rowFree_append running free) rfl
  | revokeCommit running =>
    have hrev : Revoking s.tokens _ [] _ := h.ok sid _ running
    exact h.committed running hrev.commits (fun _ hid ↦ hid) fun n hn ↦ absurd hn List.not_mem_nil
  | abort => exact h.putNone

theorem Runs.inv (hr : Runs cfg s s') (h : Inv s) : Inv s' := by
  induction hr with
  | refl => exact h
  | tail _ hstep ih =>
    obtain ⟨sid, event, hstep⟩ := hstep
    exact hstep.inv ih

theorem Reachable.inv (h : Reachable cfg s) : Inv s := by
  obtain ⟨active, hr⟩ := h
  exact Runs.inv hr (.start active)

theorem Commits.nothing (tokens : Tokens) : Commits tokens [] [] :=
  ⟨.nil, fun _ hw ↦ absurd hw List.not_mem_nil, Or.inl rfl, fun _ hw ↦ absurd hw List.not_mem_nil⟩

theorem Commits.result_nil (tokens new : Tokens) :
    Commits.result tokens [] new = tokens ++ new := by
  simp [Commits.result, Table.overlay, Table.find]

def Effect (tokens work new : Tokens) : Option Event → Prop
  | some (.rotated presented parent child userId) =>
    (∃ t ∈ tokens, t.id = parent ∧ t.revokedAt = none ∧ t.userId = userId) ∧
      (presented = parent ∨ tokens.Links presented parent) ∧
      (∀ w ∈ work, w.id ≠ parent → w ∈ tokens) ∧
      (∃ w ∈ work, w.id = parent ∧ w.replacedById = some child) ∧ ∀ n ∈ new, n.id = child
  | some (.reused presented) => new = [] ∧ presented ∈ tokens.ids ∧
      (∀ w ∈ work, w ∈ tokens ∨ tokens.Family presented w.id) ∧
      ∀ t ∈ tokens, tokens.Family presented t.id →
        ∃ w ∈ work, w.id = t.id ∧ w.revokedAt.isSome
  | some (.issued _ _) => work = []
  | some (.ended _) => new = []
  | some (.selected _) | none => work = [] ∧ new = []

theorem Step.effect (h : Inv s) (hs : Step cfg s sid event s') : ∃ work new,
    Commits s.tokens work new ∧ s'.tokens = Commits.result s.tokens work new ∧
      Effect s.tokens work new event := by
  have hnothing : ∀ s'' : Sys, s''.tokens = s.tokens → ∃ work new, Commits s.tokens work new ∧
      s''.tokens = Commits.result s.tokens work new ∧ work = [] ∧ new = [] := fun s'' hs'' ↦
    ⟨[], [], .nothing _, by rw [Commits.result_nil, List.append_nil, hs''], rfl, rfl⟩
  cases hs with
  | issue free new =>
    refine ⟨[], [_], ⟨.nil, fun _ hw ↦ absurd hw List.not_mem_nil,
      Or.inr ⟨_, rfl, fun hin ↦ new (h.drawn _ hin), rfl⟩, fun _ hw ↦ absurd hw List.not_mem_nil⟩,
      (Commits.result_nil _ _).symm, rfl⟩
  | @insert tokenHash presented parent new work running =>
    have hfresh := (h.news sid _ new.id running rfl).2
    have hclaimed : Claimed s.tokens presented parent new work := h.ok sid _ running
    obtain ⟨t, ht, now, hid, hnone, -, huser, hmem⟩ := hclaimed.claim
    refine ⟨work, [new], hclaimed.commits h.chains hfresh, rfl, ⟨t, ht, hid, hnone, huser⟩,
      hclaimed.origin, hclaimed.others, ⟨_, hmem, hid, rfl⟩, fun n hn ↦ ?_⟩
    rw [List.mem_singleton.mp hn]
  | @reuse tokenHash attempt presented userId now rows byId work t running done row revoked grace =>
    obtain ⟨hwork, hlock⟩ := h.ok sid _ running
    obtain rfl : work = byId ++ rows := hwork
    refine ⟨_, [], hlock.commits _ now, rfl, rfl, hlock.known, fun w hw ↦ ?_, fun u hu hf ↦ ?_⟩
    · obtain ⟨v, hv, rfl⟩ := List.mem_map.mp hw
      unfold revokeFamily
      split
      · rename_i hin
        have hmono := EqvGen.mono (r := Tokens.Links (byId ++ rows)) (p := s.tokens.Links)
          fun a b ⟨x, hx, hid, hl⟩ ↦ ⟨x, (hlock.locked x hx).1, hid, hl⟩
        exact Or.inr (hmono _ _ (Tokens.family_of_mem hin.1))
      · exact Or.inl (hlock.locked v hv).1
    · have hin := hlock.loaded h.chains done hf
      have hloaded : u.id ∈ Tokens.ids (byId ++ rows) := by
        rcases h.chains.linear hf with hp | hp
        · rcases hlock.below_loaded h.chains _ hp with hin | ⟨a, ha, -⟩
          · exact hin
          · have hmem := hlock.mem_linkedIds h.chains ha
            rw [done] at hmem
            cases hmem
        · simpa using hlock.above _ hp
      obtain ⟨v, hv, hid⟩ := Tokens.mem_ids.mp hloaded
      refine ⟨_, List.mem_map_of_mem hv, (revokeFamily_id _ _ _).trans hid, ?_⟩
      unfold revokeFamily
      split
      · rfl
      · rename_i hcond
        rw [hid] at hcond
        exact Option.isSome_iff_ne_none.mpr fun hnone ↦ hcond ⟨hin, hnone⟩
  | revokeCommit running =>
    have hrev : Revoking s.tokens _ [] _ := h.ok sid _ running
    exact ⟨_, [], hrev.commits, rfl, rfl⟩
  | users | rotate | refuse | select | selectRevoked | claim | claimLost | lockStart | lockRow |
    follow | unrevoked | recover | revokeSelect | revokeRow | abort => exact hnothing _ rfl

/-- No step revives a dead set, and none of its tokens is exchanged. -/
theorem Step.dead (h : Inv s) (hs : Step cfg s sid event s') {D : Uuid → Prop}
    (hD : Dead s.tokens D) : Dead s'.tokens D ∧
      ∀ presented parent child userId, event = some (.rotated presented parent child userId) →
        ¬ D presented := by
  obtain ⟨work, new, hw, htokens, heffect⟩ := hs.effect h
  refine ⟨htokens ▸ hD.commits hw, fun presented parent child userId he hin ↦ ?_⟩
  subst he
  obtain ⟨⟨t, ht, rfl, hnone, -⟩, horigin, -⟩ := heffect
  have hparent : D t.id := by
    rcases horigin with rfl | hl
    · exact hin
    · exact (hD.closed _ _ hl).mp hin
  have hrev := hD.revoked t ht hparent
  rw [hnone] at hrev
  cases hrev

theorem Runs.dead (hr : Runs cfg s s') (h : Inv s) {D : Uuid → Prop} (hD : Dead s.tokens D) :
    Dead s'.tokens D := by
  induction hr with
  | refl => exact hD
  | @tail t u hrun hstep ih =>
    obtain ⟨sid, event, hstep⟩ := hstep
    exact (hstep.dead (Runs.inv hrun h) ih).1

/-- Reuse leaves the whole family dead. -/
theorem Step.reused_dead (h : Inv s) {presented : Uuid}
    (hs : Step cfg s sid (some (.reused presented)) s') :
    Dead s'.tokens (s.tokens.Family presented) := by
  obtain ⟨work, new, hw, htokens, rfl, hknown, -, hrev⟩ := hs.effect h
  have hids : (Commits.result s.tokens work []).ids = s.tokens.ids := by
    rw [hw.ids_result]
    exact List.append_nil _
  rw [htokens]
  refine ⟨fun t ht hf ↦ ?_, fun a b hl ↦ ?_, fun a hf ↦ ?_⟩
  · have hin : t.id ∈ s.tokens.ids := hids ▸ List.mem_map_of_mem ht
    obtain ⟨u, hu, hid⟩ := Tokens.mem_ids.mp hin
    obtain ⟨w, hwin, hwid, hsome⟩ := hrev u hu (hid ▸ hf)
    obtain rfl := (hw.chains h.chains).eq_of_id (hw.work_mem hwin) ht (hwid.trans hid)
    exact hsome
  · rcases hw.links_result hl with hl | ⟨n, hn, -⟩
    · exact ⟨fun hf ↦ .trans _ _ _ hf (.rel _ _ hl),
        fun hf ↦ .trans _ _ _ hf (.symm _ _ (.rel _ _ hl))⟩
    · cases hn
  · rw [hids]
    rcases h.chains.linear hf with hp | hp
    · rcases hp.cases_tail with rfl | ⟨b, -, hl⟩
      · exact hknown
      · exact (h.chains.mem_of_links hl).2
    · rcases hp.cases_head with rfl | ⟨b, hl, -⟩
      · exact hknown
      · exact (h.chains.mem_of_links hl).1

/-- Rotation and reuse handling write only the family of the presented token. -/
theorem Step.other_families (h : Inv s) {presented : Uuid}
    (hevent : event = some (.reused presented) ∨
      ∃ parent child userId, event = some (.rotated presented parent child userId))
    (hs : Step cfg s sid event s') {id : Uuid} (hf : ¬ s'.tokens.Family presented id) :
    s'.tokens.token id = s.tokens.token id := by
  obtain ⟨work, new, hw, htokens, heffect⟩ := hs.effect h
  rw [htokens] at hf ⊢
  have hmono : ∀ {a b}, s.tokens.Family a b → (Commits.result s.tokens work new).Family a b :=
    fun hab ↦ EqvGen.mono (fun _ _ hl ↦ hw.links_mono h.chains hl) _ _ hab
  -- a written row outside the family keeps its value, and the new token is inside
  have hrows : (∀ w ∈ work, w.id = id → w ∈ s.tokens) ∧ ∀ n ∈ new, n.id ≠ id := by
    rcases hevent with rfl | ⟨parent, child, userId, rfl⟩
    · obtain ⟨rfl, -, hwork, -⟩ := heffect
      refine ⟨fun w hwin hid ↦ (hwork w hwin).resolve_right fun hfam ↦ hf (hid ▸ hmono hfam),
        fun n hn ↦ absurd hn List.not_mem_nil⟩
    · obtain ⟨-, horigin, hothers, ⟨w₀, hw₀, hid₀, hlink⟩, hnew⟩ := heffect
      have hparent : (Commits.result s.tokens work new).Family presented parent := by
        rcases horigin with rfl | hl
        · exact .refl _
        · exact .rel _ _ (hw.links_mono h.chains hl)
      refine ⟨fun w hwin hid ↦ hothers w hwin fun he ↦ hf (hid ▸ he ▸ hparent), fun n hn hid ↦ ?_⟩
      have hchild : (Commits.result s.tokens work new).Links parent child :=
        ⟨w₀, hw.work_mem hw₀, hid₀, hlink⟩
      exact hf (hid ▸ hnew n hn ▸ .trans _ _ _ hparent (.rel _ _ hchild))
  unfold Tokens.token Commits.result
  rw [Table.find_append, Table.find_overlay]
  have hnone : Table.find RefreshToken.id id new = none :=
    (Table.find_eq_none RefreshToken.id).mpr fun n hn hid ↦ hrows.2 n hn hid
  rw [hnone, Option.or_none]
  cases hfind : Table.find RefreshToken.id id work with
  | none => rfl
  | some w =>
    have hid := Table.key_of_find RefreshToken.id hfind
    have hmem := hrows.1 w (Table.mem_of_find RefreshToken.id hfind) hid
    rw [← hid, Table.find_of_mem RefreshToken.id h.chains.ids hmem]
    rfl

end Steps

/-- One simple chain for each family, alive at most at its tail. -/
structure SimpleChains (tokens : Tokens) : Prop where
  child : ∀ a b c, tokens.Links a b → tokens.Links a c → b = c
  parent : ∀ a b c, tokens.Links a c → tokens.Links b c → a = b
  present : ∀ a b, tokens.Links a b → ∃ t ∈ tokens, t.id = b
  acyclic : ∀ a, ¬ TransGen tokens.Links a a
  linear : ∀ a b, tokens.Family a b →
    ReflTransGen tokens.Links a b ∨ ReflTransGen tokens.Links b a
  revoked : ∀ t ∈ tokens, t.replacedById.isSome → t.revokedAt.isSome
  alive : ∀ t ∈ tokens, ∀ u ∈ tokens, tokens.Family t.id u.id → t.revokedAt = none →
    u.revokedAt = none → t = u

/-- Refresh-token families in every state that an interleaving of the calls reaches. -/
theorem refresh_token_families (cfg : Config) {s : Sys} (h : Reachable cfg s) :
    SimpleChains s.tokens ∧
    (∀ sid presented s₁ s₂, Step cfg s sid (some (.reused presented)) s₁ → Runs cfg s₁ s₂ →
      ∀ sid' p q c u s₃, Step cfg s₂ sid' (some (.rotated p q c u)) s₃ →
        ¬ s₃.tokens.Family presented p) ∧
    (∀ sid s', Step cfg s sid none s' → s'.tokens = s.tokens) ∧
    ∀ sid event presented s', Step cfg s sid event s' →
      (event = some (.reused presented) ∨ ∃ q c u, event = some (.rotated presented q c u)) →
      ∀ id, ¬ s'.tokens.Family presented id → s'.tokens.token id = s.tokens.token id := by
  have hinv := h.inv
  have hc := hinv.chains
  refine ⟨⟨fun a b c hb hc' ↦ hc.rightUnique hb hc', hc.parent, fun a b hl ↦ ?_, hc.acyclic,
    fun a b ↦ hc.linear, hc.revoked, fun t ht u hu ↦ hc.eq_of_unrevoked ht hu⟩, ?_, ?_, ?_⟩
  · exact Tokens.mem_ids.mp (hc.mem_of_links hl).2
  · intro sid presented s₁ s₂ hreuse hrun sid' p q c u s₃ hrotate hf
    have hinv₁ := hreuse.inv hinv
    have hdead := Runs.dead hrun hinv₁ (hreuse.reused_dead hinv)
    obtain ⟨hdead', hnot⟩ := hrotate.dead (Runs.inv hrun hinv₁) hdead
    exact hnot p q c u rfl ((hdead'.family hf).mp (.refl presented))
  · intro sid s' hstep
    obtain ⟨work, new, -, htokens, rfl, rfl⟩ := hstep.effect hinv
    rw [htokens, Commits.result_nil, List.append_nil]
  · intro sid event presented s' hstep hevent id hf
    exact hstep.other_families hinv hevent hf

section Sample

variable {cfg : Config} {s s' : Sys}

theorem Reachable.step (h : Reachable cfg s) {sid : ℕ} {event : Option Event}
    (hs : Step cfg s sid event s') : Reachable cfg s' := by
  obtain ⟨active, hr⟩ := h
  exact ⟨active, hr.tail ⟨sid, event, hs⟩⟩

theorem Sys.rowFree_alone {sid : ℕ} (h : ∀ j, j ≠ sid → s.sessions j = none) (id : Uuid) :
    s.rowFree sid id := fun j ses hj hses ↦ by cases (h j hj).symm.trans hses

def sampleConfig : Config := ⟨30, 30⟩

theorem sample_rotated : ∃ s, Reachable sampleConfig s ∧ s.sessions = (fun _ ↦ none) ∧
    s.active = (fun _ ↦ true) ∧ s.tokens =
      [(newRefreshToken sampleConfig 1 "a" 7 0).claimed 2 5,
        newRefreshToken sampleConfig 2 "b" 7 5] := by
  have h₀ : Reachable sampleConfig (.start fun _ ↦ true) := ⟨_, .refl⟩
  have h₁ := h₀.step (@Step.issue sampleConfig _ 0 1 7 "a" 0 rfl (by decide))
  have h₂ := h₁.step (@Step.rotate sampleConfig _ 0 "a" rfl)
  have h₃ := h₂.step
    (@Step.select sampleConfig _ 0 "a" "b" 0 5 2 _ rfl rfl rfl rfl (by decide) (by decide))
  have h₄ := h₃.step (@Step.claim sampleConfig _ 0 "a" 0 1 5 _ _ rfl
    (Sys.rowFree_alone (fun j hj ↦ by simp [Sys.put, Sys.start, hj]) 1) rfl (by decide))
  have h₅ := h₄.step (@Step.insert sampleConfig _ 0 "a" 1 1 _ _ rfl)
  refine ⟨_, h₅, funext fun j ↦ ?_, rfl, rfl⟩
  by_cases hj : j = 0
  · subst hj
    rfl
  · simp [Sys.committed, Sys.put, Sys.start]

/-- A token that was rotated is presented again after the grace period. -/
theorem refresh_token_families_sample : ∃ s, Reachable sampleConfig s ∧ s.tokens.Links 1 2 ∧
    (∃ s₁, Step sampleConfig s 0 (some (.reused 1)) s₁) ∧ SimpleChains s.tokens := by
  obtain ⟨⟨tokens, active, sessions, drawn⟩, h₅, hsessions, hactive, htokens⟩ := sample_rotated
  dsimp only at hsessions hactive htokens
  subst hsessions hactive htokens
  have h₆ := h₅.step (@Step.rotate sampleConfig _ 0 "a" rfl)
  have h₇ := h₆.step (@Step.selectRevoked sampleConfig _ 0 "a" 0 50000000 _ rfl rfl rfl rfl)
  have h₈ := h₇.step (@Step.lockStart sampleConfig _ 0 "a" 0 1 7 50000000 rfl)
  have h₉ := h₈.step (@Step.lockRow sampleConfig _ 0 "a" 0 1 7 1 50000000 [2] _ _ _ _ rfl
    (Sys.rowFree_alone (fun j hj ↦ by simp [Sys.put, hj]) 1) rfl)
  have h₁₀ := h₉.step (@Step.lockRow sampleConfig _ 0 "a" 0 1 7 2 50000000 [] _ _ _ _ rfl
    (Sys.rowFree_alone (fun j hj ↦ by simp [Sys.put, hj]) 2) rfl)
  refine ⟨_, h₁₀, ⟨_, List.mem_cons_self, rfl, rfl⟩, ⟨_, @Step.reuse sampleConfig _ 0 "a" 0 1 7
    50000000 _ _ _ _ rfl rfl rfl rfl rfl⟩, (refresh_token_families sampleConfig h₁₀).1⟩

end Sample

end RiskApp.Auth

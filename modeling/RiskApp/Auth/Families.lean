import RiskApp.Auth.Chains

namespace RiskApp.Auth

open Lib Relation

namespace Tokens

variable {tokens : Tokens}

theorem nodup_idsWhere (h : tokens.ids.Nodup) (p : RefreshToken → Bool) :
    (tokens.idsWhere p).Nodup := by
  unfold idsWhere inIdOrder
  rw [(List.perm_insertionSort _ _).nodup_iff]
  exact h.sublist (List.filter_sublist.map _)

end Tokens

namespace Commits

variable {tokens work new : Tokens} {a b : Uuid}

theorem path_to_old (h : Commits tokens work new) (hc : Chains tokens) (hb : b ∈ tokens.ids)
    (hp : ReflTransGen (result tokens work new).Links a b) : ReflTransGen tokens.Links a b := by
  induction hp using ReflTransGen.head_induction_on with
  | refl => exact .refl
  | head hl _ ih =>
    rcases h.links_result hl with hl | ⟨n, hn, rfl, -⟩
    · exact .head hl ih
    · refine absurd ?_ (h.mem_fresh hn).2.1
      rcases ih.cases_head with rfl | ⟨c, hl', -⟩
      · exact hb
      · exact (hc.mem_of_links hl').1

theorem path_from_old (h : Commits tokens work new) (hc : Chains tokens)
    (hp : ReflTransGen (result tokens work new).Links a b) : ReflTransGen tokens.Links a b ∨
      ∃ q ∈ work.ids, ReflTransGen tokens.Links a q ∧ (result tokens work new).Links q b ∧
        b ∉ tokens.ids := by
  induction hp with
  | refl => exact Or.inl .refl
  | @tail x y _ hl ih =>
    rcases ih with hx | ⟨q, -, -, -, hx⟩
    · rcases h.links_result hl with hl' | ⟨n, hn, rfl, w, hw, rfl, -⟩
      · exact Or.inl (hx.tail hl')
      · exact Or.inr ⟨w.id, List.mem_map_of_mem hw, hx, hl, (h.mem_fresh hn).2.1⟩
    · -- the new token has no replacement yet
      rcases h.links_result hl with hl' | ⟨-, -, -, -, -, -, -, t, ht, hid, -⟩
      · exact absurd (hc.mem_of_links hl').1 hx
      · exact absurd (Tokens.mem_ids.mpr ⟨t, ht, hid⟩) hx

end Commits

/-- What a call knows while it locks the tokens of its user: the rows it holds are current, and
every token of the presented family is loaded, chosen, or reachable from a row whose links are
still to be followed. -/
structure Locking (tokens : Tokens) (presented userId : Uuid) (todo : List Uuid)
    (rows byId : Tokens) : Prop where
  locked : ∀ t ∈ byId ++ rows, t ∈ tokens ∧ t.userId = userId
  chosen : ∀ id ∈ todo, ∃ t ∈ tokens, t.id = id ∧ t.userId = userId
  nodup : (todo ++ Tokens.ids (byId ++ rows)).Nodup
  known : presented ∈ tokens.ids
  above : ∀ a, ReflTransGen tokens.Links a presented → a ∈ todo ++ Tokens.ids (byId ++ rows)
  below : ∀ b, ReflTransGen tokens.Links presented b → b ∈ byId.ids ∨
    ∃ a ∈ todo ++ rows.ids, ReflTransGen tokens.Links a b
  closed : ∀ t ∈ byId, ∀ c, t.replacedById = some c → c ∈ todo ++ Tokens.ids (byId ++ rows)

namespace Locking

variable {tokens work new rows byId : Tokens} {presented userId : Uuid} {todo : List Uuid}

theorem frame (h : Locking tokens presented userId todo rows byId) (hc : Chains tokens)
    (hw : Commits tokens work new) (hapart : ∀ id ∈ Tokens.ids (byId ++ rows), id ∉ work.ids) :
    Locking (Commits.result tokens work new) presented userId todo rows byId := by
  refine ⟨fun t ht ↦ ?_, fun id hid ↦ ?_, h.nodup, ?_, fun a ha ↦ ?_, fun b hb ↦ ?_, h.closed⟩
  · obtain ⟨hmem, huser⟩ := h.locked t ht
    exact ⟨Commits.kept_mem hmem (hapart _ (List.mem_map_of_mem ht)), huser⟩
  · obtain ⟨t, ht, hid, huser⟩ := h.chosen id hid
    obtain ⟨w, hw', hwid, hs⟩ := hw.persists ht hc
    exact ⟨w, hw', hwid.trans hid, hs.userId.trans huser⟩
  · rw [hw.ids_result]
    exact List.mem_append_left _ h.known
  · exact h.above a (hw.path_to_old hc h.known ha)
  · have hmono : ∀ {x y}, ReflTransGen tokens.Links x y →
        ReflTransGen (Commits.result tokens work new).Links x y :=
      fun hp ↦ ReflTransGen.mono (fun _ _ hl ↦ hw.links_mono hc hl) _ _ hp
    rcases hw.path_from_old hc hb with hb | ⟨q, hq, hpq, hl, -⟩
    · exact (h.below b hb).imp id fun ⟨a, ha, hp⟩ ↦ ⟨a, ha, hmono hp⟩
    · rcases h.below q hpq with hin | ⟨a, ha, hp⟩
      · refine absurd hq (hapart q ?_)
        rw [Tokens.ids, List.map_append]
        exact List.mem_append_left _ hin
      · exact Or.inr ⟨a, ha, (hmono hp).tail hl⟩

theorem start (hc : Chains tokens) {t : RefreshToken} (ht : t ∈ tokens) (hid : t.id = presented)
    (huser : t.userId = userId) :
    Locking tokens presented userId (tokens.idsWhere (·.userId = userId)) [] [] := by
  have hknown : presented ∈ tokens.ids := Tokens.mem_ids.mpr ⟨t, ht, hid⟩
  have hmem : ∀ {a : Uuid}, a ∈ tokens.idsWhere (·.userId = userId) ↔
      ∃ t ∈ tokens, t.id = a ∧ t.userId = userId := by
    intro a
    rw [Tokens.mem_idsWhere]
    simp only [decide_eq_true_eq, and_comm]
  refine ⟨fun t ht ↦ absurd ht List.not_mem_nil, fun id hid ↦ hmem.mp hid, ?_, hknown,
    fun a ha ↦ ?_, fun b hb ↦ Or.inr ⟨presented, ?_, hb⟩, fun t ht ↦ absurd ht List.not_mem_nil⟩
  · simpa [Tokens.ids] using Tokens.nodup_idsWhere hc.ids _
  · -- an ancestor has the user of its descendants
    have huser' : ∃ u ∈ tokens, u.id = a ∧ u.userId = userId := by
      induction ha using ReflTransGen.head_induction_on with
      | refl => exact ⟨t, ht, hid, huser⟩
      | head hl _ ih =>
        obtain ⟨u, hu, hid', hu'⟩ := ih
        obtain ⟨v, hv, rfl, hlink⟩ := hl
        obtain ⟨w, hw, hwid, hwu⟩ := hc.child v hv _ hlink
        obtain rfl := hc.eq_of_id hw hu (hwid.trans hid'.symm)
        exact ⟨v, hv, rfl, hwu.symm.trans hu'⟩
    exact List.mem_append_left _ (hmem.mpr huser')
  · exact List.mem_append_left _ (hmem.mpr ⟨t, ht, hid, huser⟩)

theorem lockRow {id : Uuid} {t : RefreshToken} (hc : Chains tokens)
    (h : Locking tokens presented userId (id :: todo) rows byId) (ht : tokens.token id = some t) :
    Locking tokens presented userId todo (rows ++ [t]) byId := by
  obtain ⟨hmem, rfl⟩ := Tokens.token_some ht
  have hids : ∀ {x : Uuid}, x ∈ todo ++ Tokens.ids (byId ++ (rows ++ [t])) ↔
      x ∈ t.id :: todo ++ Tokens.ids (byId ++ rows) := by
    intro x
    simp only [Tokens.ids, List.map_append, List.map_cons, List.map_nil, List.mem_append,
      List.mem_cons, List.not_mem_nil, or_false]
    tauto
  refine ⟨fun u hu ↦ ?_, fun x hx ↦ h.chosen x (List.mem_cons_of_mem _ hx), ?_, h.known,
    fun a ha ↦ hids.mpr (h.above a ha), fun b hb ↦ ?_, fun u hu c hlink ↦
    hids.mpr (h.closed u hu c hlink)⟩
  · rw [← List.append_assoc] at hu
    rcases List.mem_append.mp hu with hu | hu
    · exact h.locked u hu
    · obtain rfl := List.mem_singleton.mp hu
      obtain ⟨v, hv, hid, huser⟩ := h.chosen u.id List.mem_cons_self
      rw [← hc.eq_of_id hv hmem hid]
      exact ⟨hv, huser⟩
  · have hperm : List.Perm (todo ++ Tokens.ids (byId ++ (rows ++ [t])))
        (t.id :: todo ++ Tokens.ids (byId ++ rows)) := by
      rw [← List.append_assoc byId, Tokens.ids, List.map_append, ← List.append_assoc]
      exact List.perm_append_singleton _ _
    exact hperm.nodup_iff.mpr h.nodup
  · obtain hloaded | ⟨a, ha, hp⟩ := h.below b hb
    · exact Or.inl hloaded
    · refine Or.inr ⟨a, ?_, hp⟩
      simp only [Tokens.ids, List.map_append, List.map_cons, List.map_nil, List.mem_append,
        List.mem_cons, List.not_mem_nil, or_false] at ha ⊢
      tauto

/-- Once the rows of a statement are loaded, the links that leave them lead to loaded rows or to
missing ones. -/
theorem below_loaded (hc : Chains tokens) (h : Locking tokens presented userId [] rows byId) :
    ∀ b, ReflTransGen tokens.Links presented b → b ∈ Tokens.ids (byId ++ rows) ∨
      ∃ a ∈ Tokens.missingIds rows (byId ++ rows), ReflTransGen tokens.Links a b := by
  intro b hb
  have hwalk : ∀ a ∈ Tokens.ids (byId ++ rows), ReflTransGen tokens.Links a b →
      b ∈ Tokens.ids (byId ++ rows) ∨
        ∃ a ∈ Tokens.missingIds rows (byId ++ rows), ReflTransGen tokens.Links a b := by
    intro a ha hp
    induction hp using ReflTransGen.head_induction_on with
    | refl => exact Or.inl ha
    | @head x y hl hp ih =>
      by_cases hin : y ∈ Tokens.ids (byId ++ rows)
      · exact ih hin
      obtain ⟨t, ht, rfl, hlink⟩ := hl
      obtain ⟨u, hu, hid⟩ := Tokens.mem_ids.mp ha
      obtain rfl := hc.eq_of_id (h.locked u hu).1 ht hid
      rcases List.mem_append.mp hu with hu | hu
      · exact absurd (by simpa using h.closed u hu y hlink) hin
      · exact Or.inr ⟨y, Tokens.mem_missingIds.mpr ⟨u, hu, hlink, hin⟩, hp⟩
  have hin : presented ∈ Tokens.ids (byId ++ rows) := by simpa using h.above presented .refl
  exact hwalk presented hin hb

theorem mem_linkedIds (hc : Chains tokens) (h : Locking tokens presented userId [] rows byId)
    {c : Uuid} (hm : c ∈ Tokens.missingIds rows (byId ++ rows)) :
    c ∈ tokens.linkedIds userId (Tokens.missingIds rows (byId ++ rows)) := by
  obtain ⟨t, ht, hlink, -⟩ := Tokens.mem_missingIds.mp hm
  obtain ⟨hmem, huser⟩ := h.locked t (List.mem_append_right _ ht)
  obtain ⟨u, hu, rfl, huu⟩ := hc.child t hmem c hlink
  refine Tokens.mem_idsWhere.mpr ⟨u, hu, ?_, rfl⟩
  simp [huu.trans huser, hm]

theorem follow (hc : Chains tokens) (h : Locking tokens presented userId [] rows byId) :
    Locking tokens presented userId
      (tokens.linkedIds userId (Tokens.missingIds rows (byId ++ rows))) [] (byId ++ rows) := by
  set linked := tokens.linkedIds userId (Tokens.missingIds rows (byId ++ rows)) with hlinked
  have hmem : ∀ c ∈ linked, c ∈ Tokens.missingIds rows (byId ++ rows) ∧
      ∃ t ∈ tokens, t.id = c ∧ t.userId = userId := by
    intro c hcl
    obtain ⟨t, ht, hp, rfl⟩ := Tokens.mem_idsWhere.mp hcl
    simp only [Bool.and_eq_true, decide_eq_true_eq] at hp
    exact ⟨hp.2, t, ht, rfl, hp.1⟩
  refine ⟨by simpa using h.locked, fun c hcl ↦ (hmem c hcl).2, ?_, h.known, fun a ha ↦ ?_,
    fun b hb ↦ ?_, fun t ht c hlink ↦ ?_⟩
  · rw [List.append_nil]
    have hnodup := h.nodup
    rw [List.nil_append] at hnodup
    refine List.nodup_append.mpr ⟨Tokens.nodup_idsWhere hc.ids _, hnodup, fun x hx y hy he ↦ ?_⟩
    obtain ⟨-, -, -, hnot⟩ := Tokens.mem_missingIds.mp (hmem x hx).1
    exact hnot (he ▸ hy)
  · rw [List.append_nil]
    exact List.mem_append_right _ (by simpa using h.above a ha)
  · rcases h.below_loaded hc b hb with hin | ⟨a, ha, hp⟩
    · exact Or.inl hin
    · exact Or.inr ⟨a, List.mem_append_left _ (h.mem_linkedIds hc ha), hp⟩
  · rw [List.append_nil]
    by_cases hin : c ∈ Tokens.ids (byId ++ rows)
    · exact List.mem_append_right _ hin
    refine List.mem_append_left _ ?_
    rcases List.mem_append.mp ht with ht | ht
    · exact absurd (by simpa using h.closed t ht c hlink) hin
    · exact h.mem_linkedIds hc (Tokens.mem_missingIds.mpr ⟨t, ht, hlink, hin⟩)

/-- When no link leads further, the family is loaded. -/
theorem loaded (hc : Chains tokens) (h : Locking tokens presented userId [] rows byId)
    (hdone : tokens.linkedIds userId (Tokens.missingIds rows (byId ++ rows)) = []) {x : Uuid}
    (hf : tokens.Family presented x) : x ∈ Tokens.refreshFamilyIds (byId ++ rows) presented := by
  have habove : ∀ a, ReflTransGen tokens.Links a presented → a ∈ Tokens.ids (byId ++ rows) :=
    fun a ha ↦ by simpa using h.above a ha
  have hbelow : ∀ b, ReflTransGen tokens.Links presented b → b ∈ Tokens.ids (byId ++ rows) := by
    intro b hb
    rcases h.below_loaded hc b hb with hin | ⟨a, ha, -⟩
    · exact hin
    · have hmem := h.mem_linkedIds hc ha
      rw [hdone] at hmem
      cases hmem
  have hlinks : ∀ {a b}, a ∈ Tokens.ids (byId ++ rows) → tokens.Links a b →
      Tokens.Links (byId ++ rows) a b := by
    rintro a b ha ⟨t, ht, rfl, hb⟩
    obtain ⟨u, hu, hid⟩ := Tokens.mem_ids.mp ha
    obtain rfl := hc.eq_of_id (h.locked u hu).1 ht hid
    exact ⟨u, hu, rfl, hb⟩
  rcases hc.linear hf with hp | hp
  · induction hp with
    | refl => exact Tokens.mem_family_self (hbelow _ .refl)
    | @tail y z hy hl ih =>
      have hyin := hbelow y hy
      exact Tokens.mem_family_of_links (ih (eqvGen_of_reflTransGen hy)) hyin
        (hbelow z (hy.tail hl)) (Or.inl (hlinks hyin hl))
  · induction hp using ReflTransGen.head_induction_on with
    | refl => exact Tokens.mem_family_self (hbelow _ .refl)
    | @head y z hl hz ih =>
      have hyin := habove y (.head hl hz)
      exact Tokens.mem_family_of_links (ih (.symm _ _ (eqvGen_of_reflTransGen hz))) (habove z hz)
        hyin (Or.inr (hlinks hyin hl))

end Locking

end RiskApp.Auth

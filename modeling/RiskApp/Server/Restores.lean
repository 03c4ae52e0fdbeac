import RiskApp.Server.Publications

namespace RiskApp.Server.Backups

open Lib

namespace State

variable {ι β δ ρ : Type} [DecidableEq ι] {pf : Platform β δ} {s s' : State ι β δ ρ} {n : ℕ}
  {args : Args} {dir : FilePath} {phase : Phase ι δ}

variable (pf) in
/-- Since `b` the source of a call under way has led to that file. -/
def OpenedSince (b s : State ι β δ ρ) (n : ℕ) (args : Args) (dir : FilePath) (opened : ι) : Prop :=
  ∃ s₁, Runs pf b s₁ ∧ Runs pf s₁ s ∧ s₁.jobs n = some ⟨args, .working dir⟩ ∧
    s₁.disk.fileAt args.source = some opened

variable (pf) in
/-- After that, while the call was copying, the file has held that database. -/
def TakenSince (b s : State ι β δ ρ) (n : ℕ) (args : Args) (opened : ι) (db : Database ρ) : Prop :=
  ∃ s₁ dir i, OpenedSince pf b s₁ n args dir opened ∧ Runs pf s₁ s ∧
    s₁.jobs n = some ⟨args, .staged dir i opened .copying⟩ ∧
    (s₁.disk.contents opened).database = some db

variable (pf) in
/-- Where the copies of a call that begins after `b` come from. -/
structure Traced (b s : State ι β δ ρ) (n : ℕ) : Prop where
  opened : ∀ {args dir i opened stage}, s.jobs n = some ⟨args, .staged dir i opened stage⟩ →
    OpenedSince pf b s n args dir opened
  taken : ∀ {args dir i opened stage}, s.jobs n = some ⟨args, .staged dir i opened stage⟩ →
    Filled stage → ∃ db, (s.disk.contents i).database = some db ∧
      TakenSince pf b s n args opened db
  published : ∀ pub ∈ s.published, pub.job = n →
    ∃ db, pub.file.database = some db ∧ TakenSince pf b s n pub.args pub.opened db

variable {b : State ι β δ ρ} {i opened : ι} {stage : Stage δ} {db : Database ρ} {k : ℕ}

theorem OpenedSince.step (h : OpenedSince pf b s n args dir opened) (hs : s.Step pf s') :
    OpenedSince pf b s' n args dir opened := by
  obtain ⟨s₁, h₁, h₂, hrest⟩ := h
  exact ⟨s₁, h₁, h₂.tail hs, hrest⟩

theorem TakenSince.step (h : TakenSince pf b s n args opened db) (hs : s.Step pf s') :
    TakenSince pf b s' n args opened db := by
  obtain ⟨s₁, dir, i, hopened, h₁, hrest⟩ := h
  exact ⟨s₁, dir, i, hopened, h₁.tail hs, hrest⟩

theorem Traced.publishedStep (h : Traced pf b s n) (hs : s.Step pf s')
    {pub : Publication ι β δ ρ} (hpub : pub ∈ s.published) (hn : pub.job = n) :
    ∃ db, pub.file.database = some db ∧ TakenSince pf b s' n pub.args pub.opened db := by
  obtain ⟨db, hdb, htaken⟩ := h.published pub hpub hn
  exact ⟨db, hdb, htaken.step hs⟩

theorem Traced.elsewhere (h : Traced pf b s n) (hs : s.Step pf s')
    (hjob : ∀ {args dir i opened stage}, s'.jobs n = some ⟨args, .staged dir i opened stage⟩ →
      s.jobs n = some ⟨args, .staged dir i opened stage⟩ ∧
        (Filled stage → s'.disk.contents i = s.disk.contents i))
    (hpub : ∀ pub ∈ s'.published, pub.job = n → pub ∈ s.published) : Traced pf b s' n where
  opened hj := (h.opened (hjob hj).1).step hs
  taken hj hfilled := by
    obtain ⟨hbefore, hcontents⟩ := hjob hj
    obtain ⟨db, hdb, htaken⟩ := h.taken hbefore hfilled
    exact ⟨db, (hcontents hfilled) ▸ hdb, htaken.step hs⟩
  published pub hp hn := h.publishedStep hs (hpub pub hp hn) hn

theorem Traced.empty (h : Traced pf b s n) {s' : State ι β δ ρ} {phase' : Phase ι δ}
    (hs : s.Step pf (s'.put n args phase')) (hpub : s'.published = s.published)
    (hphase : ∀ dir i opened stage, phase' ≠ .staged dir i opened stage) :
    Traced pf b (s'.put n args phase') n := by
  refine h.elsewhere hs (fun hj ↦ ?_) fun pub hp _ ↦ hpub ▸ hp
  rw [jobs_put_self] at hj
  exact absurd (congrArg Job.phase (Option.some.inj hj)) (hphase _ _ _ _)

theorem Traced.staged (h : Traced pf b s n) {s' : State ι β δ ρ} {stage' : Stage δ}
    (hs : s.Step pf (s'.put n args (.staged dir i opened stage')))
    (hpub : s'.published = s.published)
    (hopened : OpenedSince pf b s n args dir opened)
    (htaken : Filled stage' → ∃ db, (s'.disk.contents i).database = some db ∧
      TakenSince pf b s n args opened db) :
    Traced pf b (s'.put n args (.staged dir i opened stage')) n where
  opened hj := by
    rw [jobs_put_self] at hj
    cases hj
    exact hopened.step hs
  taken hj hfilled := by
    rw [jobs_put_self] at hj
    cases hj
    obtain ⟨db, hdb, hsince⟩ := htaken hfilled
    exact ⟨db, hdb, hsince.step hs⟩
  published pub hp hn := h.publishedStep hs (hpub ▸ hp) hn

theorem Traced.publish (h : Traced pf b s n) {t : State ι β δ ρ} {info : BackupInfo δ}
    (hs : s.Step pf ((t.publish n args i opened info).put n args
      (.staged dir i opened (.published info))))
    (hpub : t.published = s.published) (hdisk : t.disk.contents = s.disk.contents)
    (hjob : s.jobs n = some ⟨args, .staged dir i opened stage⟩) (hfilled : Filled stage) :
    Traced pf b ((t.publish n args i opened info).put n args
      (.staged dir i opened (.published info))) n where
  opened hj := by
    rw [jobs_put_self] at hj
    cases hj
    exact (h.opened hjob).step hs
  taken hj hfilled := by
    rw [jobs_put_self] at hj
    cases hj
    cases hfilled
  published pub hp hn := by
    rcases List.mem_cons.mp hp with rfl | hp
    · obtain ⟨db, hdb, htaken⟩ := h.taken hjob hfilled
      exact ⟨db, hdisk ▸ hdb, htaken.step hs⟩
    · exact h.publishedStep hs (hpub ▸ hp) hn

omit [DecidableEq ι] in
theorem readOnly_ok {d : Disk ι (Contents β ρ)} {p : FilePath} (h : readOnly d p = .ok i) :
    d.fileAt p = some i := by
  unfold readOnly at h
  split at h
  · cases h
  · rename_i hat
    cases h
    exact hat

theorem Act.jobs_of_ne (ha : s.Act pf n s') (hk : k ≠ n) : s'.jobs k = s.jobs k := by
  cases ha with
  | copyPages | sidecar => rfl
  | aim | clear | accept | makeDir | openFiles | copied | verify | fsync | recheck | ready | link
  | replace | finish | raise | raiseEmpty | raiseStaged => exact jobs_put_of_ne hk

theorem Act.published_of_ne (ha : s.Act pf n s') (hk : k ≠ n) {pub : Publication ι β δ ρ}
    (hpub : pub ∈ s'.published) (hjob : pub.job = k) : pub ∈ s.published := by
  cases ha with
  | link | replace =>
    rcases List.mem_cons.mp hpub with rfl | hpub
    · exact absurd hjob.symm hk
    · exact hpub
  | aim | clear | accept | makeDir | openFiles | copyPages | copied | verify | fsync | recheck
  | ready | sidecar | finish | raise | raiseEmpty | raiseStaged => exact hpub

theorem Act.traced (ha : s.Act pf n s') (hinv : s.Inv pf) (h : Traced pf b s n)
    (hb : Runs pf b s) : Traced pf b s' n := by
  have hs := Step.act ha
  cases ha with
  | aim | clear | accept | makeDir | raise =>
    exact h.empty hs rfl (by simp)
  | finish | raiseEmpty | raiseStaged => exact h.empty hs rfl (by simp)
  | openFiles job source new unnamed clean =>
    exact h.staged hs rfl ⟨s, hb, .refl, job, readOnly_ok source⟩ fun hfilled ↦ hfilled.elim
  | copyPages file job =>
    refine h.elsewhere hs (fun hj ↦ ⟨hj, fun hfilled ↦ ?_⟩) fun pub hp _ ↦ hp
    have hsame := Option.some.inj (Eq.trans (Eq.symm hj) job)
    simp only [Job.mk.injEq, Phase.staged.injEq] at hsame
    obtain ⟨-, -, -, -, rfl⟩ := hsame
    cases hfilled
  | @copied args dir i opened db bytes job read =>
    refine h.staged hs rfl (h.opened job) fun _ ↦ ⟨db, ?_, ?_⟩
    · exact congrArg Contents.database (Disk.write_self ..)
    · exact ⟨s, dir, i, h.opened job, .refl, job, read⟩
  | verify job ok => exact h.staged hs rfl (h.opened job) fun _ ↦ h.taken job trivial
  | fsync job => exact h.staged hs rfl (h.opened job) fun _ ↦ h.taken job trivial
  | recheck job restore ok => exact h.staged hs rfl (h.opened job) fun _ ↦ h.taken job trivial
  | ready job ok => exact h.staged hs rfl (h.opened job) fun _ ↦ h.taken job trivial
  | sidecar file job reads beside found =>
    refine h.elsewhere hs (fun hj ↦ ⟨hj, fun hfilled ↦ ?_⟩) fun pub hp _ ↦ hp
    obtain ⟨hmade, hreached⟩ := hinv.staged hj
    exact (Disk.write_of_ne (hinv.beside_ne beside found hmade
      (hreached.unpublished hfilled))).1
  | link job new free =>
    refine h.publish hs rfl rfl job ?_
    split
    · trivial
    · trivial
  | replace job restore replace =>
    exact Traced.publish h (t := s.onDisk _) hs rfl rfl job trivial

theorem Step.traced (hs : s.Step pf s') (hinv : s.Inv pf) (hhoused : s.Housed)
    (h : Traced pf b s n) (hb : Runs pf b s) : Traced pf b s' n := by
  cases hs with
  | @act k s' does =>
    by_cases hk : n = k
    · subst hk
      exact does.traced hinv h hb
    · refine h.elsewhere (.act does) (fun hj ↦ ?_) fun pub hp hn ↦ does.published_of_ne hk hp hn
      rw [does.jobs_of_ne hk] at hj
      refine ⟨hj, fun hfilled ↦ ?_⟩
      by_contra hne
      have hafter := does.inv hinv hhoused
      have hown := hafter.staged ((does.jobs_of_ne hk).trans hj)
      rcases (does.careful hinv hhoused).files _ hne with ⟨-, m, hm, hjob, hinode⟩ |
        ⟨args', phase, p, -, beside, hname⟩
      · rw [hafter.made_unique hm hown.1 hinode] at hjob
        exact hk hjob
      · have hpath := hafter.hidden _ hown.1 (hown.2.unpublished hfilled) p (Or.inl hname)
        exact walName_ne beside _ hpath
  | call k args new apart =>
    refine h.elsewhere (.call k args new apart) (fun hj ↦ ?_) fun pub hp _ ↦ hp
    by_cases hk : n = k
    · subst hk
      rw [jobs_put_self] at hj
      cases hj
    · rw [jobs_put_of_ne hk] at hj
      exact ⟨hj, fun _ ↦ rfl⟩
  | others others =>
    refine h.elsewhere (.others others) (fun hj ↦ ?_) fun pub hp _ ↦ others.published ▸ hp
    rw [others.jobs] at hj
    refine ⟨hj, fun hfilled ↦ ?_⟩
    obtain ⟨hmade, hreached⟩ := hinv.staged hj
    have hfree := hreached.unpublished hfilled
    exact (others.marked _ ((others.apart _ hmade hfree).trans
      (hinv.untouched _ hmade hfree))).2.1
  | flush p => exact h.elsewhere (.flush p) (fun hj ↦ ⟨hj, fun _ ↦ rfl⟩) fun pub hp _ ↦ hp
  | powerLoss loss =>
    refine h.elsewhere (.powerLoss loss) (fun hj ↦ ?_) fun pub hp _ ↦ hp
    obtain ⟨job, -, he⟩ := Option.map_eq_some_iff.mp hj
    exact absurd he lose_staged

theorem Act.known (ha : s.Act pf n s') : s'.jobs n ≠ none := by
  cases ha with
  | copyPages file job | sidecar file job =>
    intro hnone
    exact nomatch hnone.symm.trans job
  | aim | clear | accept | makeDir | openFiles | copied | verify | fsync | recheck | ready | link
  | replace | finish | raise | raiseEmpty | raiseStaged => simp [State.put]

theorem Runs.known (hr : Runs pf b s) (hb : b.Fresh) :
    ∀ pub ∈ s.published, s.jobs pub.job ≠ none := by
  induction hr with
  | refl => simp [hb.published]
  | tail _ hs ih =>
    intro pub hpub
    cases hs with
    | @act n _ does =>
      by_cases hn : pub.job = n
      · exact hn ▸ does.known
      · rw [does.jobs_of_ne hn]
        exact ih pub (does.published_of_ne hn hpub rfl)
    | call n args new apart =>
      by_cases hn : pub.job = n
      · exact absurd (hn ▸ new) (ih pub hpub)
      · rw [jobs_put_of_ne hn]
        exact ih pub hpub
    | others others =>
      rw [others.jobs]
      exact ih pub (others.published ▸ hpub)
    | flush p => exact ih pub hpub
    | powerLoss loss => exact fun hnone ↦ ih pub hpub (Option.map_eq_none_iff.mp hnone)

theorem Act.grows (ha : s.Act pf n s') : s.published ⊆ s'.published ∧
    ∀ i, s'.touched i = false → s.touched i = false := by
  cases ha with
  | link | replace => exact ⟨List.subset_cons_self .., fun _ ↦ id⟩
  | @sidecar args phase p j file job reads beside found =>
    refine ⟨List.Subset.refl _, fun i hi ↦ ?_⟩
    by_cases hj : i = j
    · simp [State.writeBeside, hj] at hi
    · exact (Function.update_of_ne hj ..).symm.trans hi
  | aim | clear | accept | makeDir | openFiles | copyPages | copied | verify | fsync | recheck
  | ready | finish | raise | raiseEmpty | raiseStaged => exact ⟨List.Subset.refl _, fun _ ↦ id⟩

theorem Runs.grows (hr : Runs pf b s) : b.published ⊆ s.published ∧
    ∀ i, s.touched i = false → b.touched i = false := by
  induction hr with
  | refl => exact ⟨List.Subset.refl _, fun _ ↦ id⟩
  | tail _ hs ih =>
    cases hs with
    | act does =>
      exact ⟨List.Subset.trans ih.1 does.grows.1, fun i hi ↦ ih.2 i (does.grows.2 i hi)⟩
    | others others =>
      exact ⟨others.published ▸ ih.1, fun i hi ↦ ih.2 i (others.marked i hi).1⟩
    | call | flush | powerLoss => exact ih

/-- Everything that a call publishes is what its source held at a moment of the call. -/
theorem Runs.traced (hr : Runs pf b s) (hb : b.Inv pf) (hhoused : b.Housed)
    (hjob : b.jobs n = none) (hpub : ∀ pub ∈ b.published, pub.job ≠ n) : Traced pf b s n := by
  induction hr with
  | refl =>
    exact ⟨fun hj ↦ (nomatch hjob.symm.trans hj), fun hj ↦ (nomatch hjob.symm.trans hj),
      fun pub hp hn ↦ absurd hn (hpub pub hp)⟩
  | tail hr hs ih =>
    exact hs.traced (Runs.inv hr hb hhoused) (Runs.housed hr hhoused) ih hr

/-- A restore that begins after a backup was published, and whose source leads to it, gives back
what the backed-up database held at a moment of the backup. -/
theorem restore_gives_back {s₀ s₁ : State ι β δ ρ} (h₀ : s₀.Fresh) (h₁ : Runs pf s₀ s₁)
    (h : Runs pf s₁ s) {backup restore : Publication ι β δ ρ} (hbackup : backup ∈ s₁.published)
    (hrestore : restore ∈ s.published) (hnew : s₁.jobs restore.job = none)
    (hsource : restore.opened = backup.inode) (huntouched : s.touched backup.inode = false) :
    ∃ db, restore.file.database = some db ∧
      TakenSince pf s₀ s₁ backup.job backup.args backup.opened db := by
  have hinv : s₁.Inv pf := h₁.inv h₀.inv h₀.housed
  have hhoused : s₁.Housed := h₁.housed h₀.housed
  have hknown := h₁.known h₀
  have hlater : Traced pf s₁ s restore.job := h.traced hinv hhoused hnew
    fun pub hpub hjob ↦ hknown pub hpub (hjob ▸ hnew)
  have hearlier : Traced pf s₀ s₁ backup.job := h₁.traced h₀.inv h₀.housed (h₀.jobs _)
    fun pub hpub ↦ by simp [h₀.published] at hpub
  obtain ⟨db, hdb, s₃, dir, i, hopened, h₄, -, hheld⟩ := hlater.published restore hrestore rfl
  obtain ⟨s₂, h₂, h₃, -⟩ := hopened
  obtain ⟨db', hdb', htaken⟩ := hearlier.published backup hbackup rfl
  refine ⟨db, hdb, ?_⟩
  -- at the moment of the copy the backup is still the file that was published
  have hmoment : Runs pf s₁ s₃ := h₂.trans h₃
  have hfile := ((hmoment.inv hinv hhoused).whole backup (hmoment.grows.1 hbackup)).kept
    (h₄.grows.2 _ huntouched)
  rw [hsource, hfile.1, hdb'] at hheld
  exact Option.some.inj hheld ▸ htaken

end State

def sampleRestore : Args where
  kind := .restore
  source := ["srv", "copy"]
  target := ["srv", "new"]
  offline := true

theorem sample_restore : ∃ s, State.Runs samplePlatform sampleCopied s ∧
    ∃ restore ∈ s.published, restore.job = 1 ∧ restore.opened = 1 ∧ s.touched 1 = false := by
  have h₀ : State.Runs samplePlatform sampleCopied sampleCopied := .refl
  have h₁ := h₀.step (.call 1 sampleRestore rfl (Args.apart_of_head (by decide)))
  have h₂ := h₁.act (.aim State.jobs_put_self (fun _ ↦ rfl) rfl)
  have h₃ := h₂.act (.clear State.jobs_put_self rfl rfl)
  have h₄ := h₃.act (.accept State.jobs_put_self rfl)
  have h₅ := h₄.act (.makeDir "y" State.jobs_put_self rfl)
  have h₆ := h₅.act (@State.Act.openFiles _ _ _ _ _ _ _ _ _ _ 3 _ ⟨"", none, false⟩
    State.jobs_put_self rfl (fun m hm ↦ ?_) (fun p ↦ ?_) rfl)
  · have h₇ := h₆.act (.copied "bytes" State.jobs_put_self rfl)
    have h₈ := h₇.act (.verify State.jobs_put_self rfl)
    have h₉ := h₈.act (.fsync State.jobs_put_self)
    have h₁₀ := h₉.act (.recheck State.jobs_put_self rfl rfl)
    have h₁₁ := h₁₀.act (.ready State.jobs_put_self rfl)
    have h₁₂ := h₁₁.act (.link State.jobs_put_self (fun _ ↦ rfl) rfl)
    exact ⟨_, h₁₂, _, List.mem_cons_self, rfl, rfl, rfl⟩
  · obtain rfl := List.mem_singleton.mp hm
    decide
  · rintro (h | h)
    · simp only [State.put, State.onDisk, sampleCopied, State.cleanUp, State.publish, State.make,
        State.writeBeside, sampleFiles, Disk.setName, Disk.write, Disk.sync,
        Function.update_apply] at h
      split_ifs at h
      all_goals cases h
    · cases h

theorem restore_gives_back_sample : ∃ db,
    State.TakenSince samplePlatform sampleFiles sampleCopied 0 sampleBackup 0 db := by
  obtain ⟨s, hs, restore, hrestore, hjob, hopened, htouched⟩ := sample_restore
  obtain ⟨db, -, htaken⟩ := State.restore_gives_back sampleFiles_fresh sample_backup hs
    List.mem_cons_self hrestore (hjob ▸ rfl) hopened htouched
  exact ⟨db, htaken⟩

end RiskApp.Server.Backups

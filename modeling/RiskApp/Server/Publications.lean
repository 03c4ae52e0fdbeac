import RiskApp.Server.Staging

namespace RiskApp.Server.Backups

open Lib

namespace State

variable {ι β δ ρ : Type} (pf : Platform β δ)

/-- A published file passes the verification that its call reports, and holds what it held then
until somebody writes to it. -/
structure Whole (s : State ι β δ ρ) (pub : Publication ι β δ ρ) : Prop where
  verified : verifyFile pf pub.args.target pub.args.allowUnversioned pub.file = .ok pub.info
  kept : s.touched pub.inode = false →
    s.disk.contents pub.inode = pub.file ∧ s.disk.synced pub.inode = true

def Reached (s : State ι β δ ρ) (n : ℕ) (args : Args) (dir : FilePath) (i : ι) : Stage δ → Prop
  | .copying | .copied => s.Unpublished i
  | .verified info => s.Unpublished i ∧ verifyFile pf (dir ++ [stagedName args.kind])
      args.allowUnversioned (s.disk.contents i) = .ok info
  | .synced info | .rechecked info | .ready info => s.Unpublished i ∧
      verifyFile pf (dir ++ [stagedName args.kind]) args.allowUnversioned (s.disk.contents i) =
        .ok info ∧ s.disk.synced i = true
  | .published info => ∃ pub ∈ s.published, pub.job = n ∧ pub.args = args ∧
      pub.info = { info with path := args.target }

structure Inv (s : State ι β δ ρ) : Prop where
  distinct : (s.made.map Made.inode).Nodup
  named : ∀ m ∈ s.made, ∃ kind, m.name = stagedName kind
  staged : ∀ {n args dir i opened stage}, s.jobs n = some ⟨args, .staged dir i opened stage⟩ →
    ⟨n, dir, stagedName args.kind, i⟩ ∈ s.made ∧ s.Reached pf n args dir i stage
  returned : ∀ {n args info}, s.jobs n = some ⟨args, .returned info⟩ →
    ∃ pub ∈ s.published, pub.job = n ∧ pub.args = args ∧ pub.info = info
  hidden : ∀ m ∈ s.made, s.Unpublished m.inode → ∀ p, s.disk.Leads p m.inode → p = m.path
  untouched : ∀ m ∈ s.made, s.Unpublished m.inode → s.touched m.inode = false
  origin : ∀ pub ∈ s.published, ∃ m ∈ s.made, m.inode = pub.inode
  whole : ∀ pub ∈ s.published, s.Whole pf pub

variable {pf} {s s' : State ι β δ ρ} {n k : ℕ} {args : Args} {dir : FilePath} {i j opened : ι}
  {stage : Stage δ} {info : BackupInfo δ} {phase : Phase ι δ} {d : Disk ι (Contents β ρ)}

theorem Reached.congr (h : s.Reached pf n args dir i stage)
    (hopen : s.Unpublished i → s'.Unpublished i) (hpub : s.published ⊆ s'.published)
    (hdisk : s.Unpublished i → s'.disk.contents i = s.disk.contents i ∧
      s'.disk.synced i = s.disk.synced i) : s'.Reached pf n args dir i stage := by
  cases stage with
  | copying | copied => exact hopen h
  | verified info =>
    obtain ⟨hfree, hok⟩ := h
    exact ⟨hopen hfree, (hdisk hfree).1 ▸ hok⟩
  | synced info | rechecked info | ready info =>
    obtain ⟨hfree, hok, hsync⟩ := h
    exact ⟨hopen hfree, (hdisk hfree).1 ▸ hok, (hdisk hfree).2.trans hsync⟩
  | published info =>
    obtain ⟨pub, hp, hrest⟩ := h
    exact ⟨pub, hpub hp, hrest⟩

/-- The stages with the copy of a whole database that is not published yet. -/
def Filled : Stage δ → Prop
  | .copying | .published _ => False
  | _ => True

theorem Reached.unpublished (h : s.Reached pf n args dir i stage) (hfilled : Filled stage) :
    s.Unpublished i := by
  cases stage with
  | copying => exact h
  | copied => exact h
  | verified info => exact h.1
  | synced info | rechecked info | ready info => exact h.1
  | published info => cases hfilled

theorem Inv.made_unique (h : s.Inv pf) {m m' : Made ι} (hm : m ∈ s.made) (hm' : m' ∈ s.made)
    (he : m.inode = m'.inode) : m = m' :=
  List.inj_on_of_nodup_map h.distinct hm hm' he

theorem Inv.put (h : s.Inv pf) (hstaged : ∀ {dir i opened stage},
      phase = .staged dir i opened stage →
        ⟨n, dir, stagedName args.kind, i⟩ ∈ s.made ∧ s.Reached pf n args dir i stage)
    (hreturned : ∀ {info}, phase = .returned info →
      ∃ pub ∈ s.published, pub.job = n ∧ pub.args = args ∧ pub.info = info) :
    (s.put n args phase).Inv pf where
  distinct := h.distinct
  named := h.named
  staged {k args' dir i opened stage} hjob := by
    by_cases hk : k = n
    · subst hk
      simp only [State.put, Function.update_self, Option.some.injEq, Job.mk.injEq] at hjob
      obtain ⟨rfl, hphase⟩ := hjob
      exact ⟨(hstaged hphase).1, (hstaged hphase).2.congr id (fun _ ↦ id) fun _ ↦ ⟨rfl, rfl⟩⟩
    · simp only [State.put, Function.update_of_ne hk] at hjob
      exact ⟨(h.staged hjob).1, (h.staged hjob).2.congr id (fun _ ↦ id) fun _ ↦ ⟨rfl, rfl⟩⟩
  returned {k args' info} hjob := by
    by_cases hk : k = n
    · subst hk
      simp only [State.put, Function.update_self, Option.some.injEq, Job.mk.injEq] at hjob
      obtain ⟨rfl, hphase⟩ := hjob
      exact hreturned hphase
    · simp only [State.put, Function.update_of_ne hk] at hjob
      exact h.returned hjob
  hidden := h.hidden
  untouched := h.untouched
  origin := h.origin
  whole pub hpub := ⟨(h.whole pub hpub).verified, (h.whole pub hpub).kept⟩

theorem Inv.onDisk (h : s.Inv pf) (hcontents : ∀ m ∈ s.made,
      d.contents m.inode = s.disk.contents m.inode ∧ d.synced m.inode = s.disk.synced m.inode)
    (hleads : ∀ m ∈ s.made, s.Unpublished m.inode → ∀ p, d.Leads p m.inode →
      s.disk.Leads p m.inode) : (s.onDisk d).Inv pf where
  distinct := h.distinct
  named := h.named
  staged hjob := by
    obtain ⟨hmade, hreached⟩ := h.staged hjob
    exact ⟨hmade, hreached.congr id (fun _ ↦ id) fun _ ↦ hcontents _ hmade⟩
  returned := h.returned
  hidden m hm hfree p hp := h.hidden m hm hfree p (hleads m hm hfree p hp)
  untouched := h.untouched
  origin := h.origin
  whole pub hpub := by
    refine ⟨(h.whole pub hpub).verified, fun htouched ↦ ?_⟩
    obtain ⟨m, hm, hinode⟩ := h.origin pub hpub
    obtain ⟨hc, hs⟩ := hcontents m hm
    rw [hinode] at hc hs
    obtain ⟨hfile, hsync⟩ := (h.whole pub hpub).kept htouched
    exact ⟨hc.trans hfile, hs.trans hsync⟩

theorem Inv.setName (h : s.Inv pf) {p : FilePath} {e : Option (DirEntry ι)}
    (he : ∀ i, e ≠ some (.file i)) : (s.onDisk (s.disk.setName p e)).Inv pf := by
  refine h.onDisk (fun _ _ ↦ ⟨rfl, rfl⟩) fun m _ _ q hq ↦ ?_
  rcases hq.of_setName with hq | ⟨-, hfile⟩
  · exact hq
  · exact absurd hfile (he _)

theorem Inv.cleanUp (h : s.Inv pf) (kind : Kind) (dir : FilePath) :
    (s.cleanUp kind dir).Inv pf := by
  refine h.onDisk (fun _ _ ↦ ⟨rfl, rfl⟩) fun m _ _ q hq ↦ ?_
  rcases hq.of_setName with hq | ⟨-, hfile⟩
  · rcases hq.of_setName with hq | ⟨-, hfile⟩
    · exact hq
    · cases hfile
  · cases hfile

theorem Inv.ownFile (h : s.Inv pf)
    (hjob : s.jobs n = some ⟨args, .staged dir i opened stage⟩) (hfree : s.Unpublished i)
    (hstage : ∀ s' : State ι β δ ρ, s'.jobs = s.jobs → s'.made = s.made →
      s'.published = s.published → s'.disk = d → s'.Reached pf n args dir i stage)
    (hcontents : ∀ j, j ≠ i → d.contents j = s.disk.contents j ∧ d.synced j = s.disk.synced j)
    (hleads : ∀ p j, d.Leads p j → s.disk.Leads p j) : (s.onDisk d).Inv pf where
  distinct := h.distinct
  named := h.named
  staged {k args' dir' i' opened' stage'} hjob' := by
    obtain ⟨hmade, hreached⟩ := h.staged hjob'
    refine ⟨hmade, ?_⟩
    by_cases hi : i' = i
    · have hsame := h.made_unique hmade (h.staged hjob).1 hi
      simp only [Made.mk.injEq] at hsame
      obtain ⟨rfl, -⟩ := hsame
      have hboth : some _ = some _ := hjob'.symm.trans hjob
      simp only [Option.some.injEq, Job.mk.injEq, Phase.staged.injEq] at hboth
      obtain ⟨rfl, rfl, rfl, rfl, rfl⟩ := hboth
      exact hstage _ rfl rfl rfl rfl
    · exact hreached.congr id (fun _ ↦ id) fun _ ↦ hcontents _ hi
  returned := h.returned
  hidden m hm hfree p hp := h.hidden m hm hfree p (hleads p _ hp)
  untouched := h.untouched
  origin := h.origin
  whole pub hpub := by
    refine ⟨(h.whole pub hpub).verified, fun htouched ↦ ?_⟩
    obtain ⟨hfile, hsync⟩ := (h.whole pub hpub).kept htouched
    obtain ⟨hc, hs⟩ := hcontents _ (hfree pub hpub)
    exact ⟨hc.trans hfile, hs.trans hsync⟩

theorem verifyFile_path {p q : FilePath} {allowUnversioned : Bool} {file : Contents β ρ}
    (h : verifyFile pf p allowUnversioned file = .ok info) :
    verifyFile pf q allowUnversioned file = .ok { info with path := q } := by
  unfold verifyFile at h ⊢
  cases hdb : file.database with
  | none => rw [hdb] at h; cases h
  | some db =>
    rw [hdb] at h
    dsimp only at h ⊢
    cases hi : inspect pf allowUnversioned db with
    | error e => rw [hi] at h; cases h
    | ok revision =>
      rw [hi] at h
      cases h
      rfl

theorem verifyBackup_eq {p : FilePath} {allowUnversioned : Bool}
    (hclear : noSidecars d p = .ok ()) (hat : d.fileAt p = some i) :
    verifyBackup pf d p allowUnversioned = verifyFile pf p allowUnversioned (d.contents i) := by
  simp only [verifyBackup, readOnly, hclear, hat]
  rfl

theorem verifyBackup_ok {p : FilePath} {allowUnversioned : Bool}
    (h : verifyBackup pf d p allowUnversioned = .ok info) (hat : d.fileAt p = some i) :
    verifyFile pf p allowUnversioned (d.contents i) = .ok info := by
  cases hclear : noSidecars d p with
  | ok => exact (verifyBackup_eq hclear hat).symm.trans h
  | error e =>
    rw [verifyBackup, hclear] at h
    cases h

theorem Inv.publish (h : s.Inv pf)
    (hjob : s.jobs n = some ⟨args, .staged dir i opened stage⟩)
    (hok : verifyFile pf (dir ++ [stagedName args.kind]) args.allowUnversioned
      (s.disk.contents i) = .ok info) (hsync : s.disk.synced i = true) :
    ((s.publish n args i opened info).put n args (.staged dir i opened (.published info))).Inv
      pf where
  distinct := h.distinct
  named := h.named
  staged {k args' dir' i' opened' stage'} hjob' := by
    by_cases hk : k = n
    · subst hk
      rw [jobs_put_self] at hjob'
      simp only [Option.some.injEq, Job.mk.injEq, Phase.staged.injEq] at hjob'
      obtain ⟨rfl, rfl, rfl, rfl, rfl⟩ := hjob'
      exact ⟨(h.staged hjob).1, _, List.mem_cons_self, rfl, rfl, rfl⟩
    · rw [jobs_put_of_ne hk] at hjob'
      obtain ⟨hmade, hreached⟩ := h.staged hjob'
      refine ⟨hmade, hreached.congr (fun hopen pub hpub ↦ ?_) (List.subset_cons_self ..)
        fun _ ↦ ⟨rfl, rfl⟩⟩
      rcases List.mem_cons.mp hpub with rfl | hpub
      · intro hi
        have hsame := h.made_unique hmade (h.staged hjob).1 hi.symm
        simp only [Made.mk.injEq] at hsame
        exact hk hsame.1
      · exact hopen pub hpub
  returned {k args' info'} hjob' := by
    by_cases hk : k = n
    · subst hk
      rw [jobs_put_self] at hjob'
      cases hjob'
    · rw [jobs_put_of_ne hk] at hjob'
      obtain ⟨pub, hpub, hrest⟩ := h.returned hjob'
      exact ⟨pub, List.mem_cons_of_mem _ hpub, hrest⟩
  hidden m hm hopen p hp := by
    have hopen' : s.Unpublished m.inode := fun pub hpub ↦ hopen pub (List.mem_cons_of_mem _ hpub)
    rcases Disk.Leads.of_setName hp with hp | ⟨-, he⟩
    · exact h.hidden m hm hopen' p hp
    · simp only [Option.some.injEq, DirEntry.file.injEq] at he
      exact absurd he (hopen _ List.mem_cons_self)
  untouched m hm hopen :=
    h.untouched m hm fun pub hpub ↦ hopen pub (List.mem_cons_of_mem _ hpub)
  origin pub hpub := by
    rcases List.mem_cons.mp hpub with rfl | hpub
    · exact ⟨_, (h.staged hjob).1, rfl⟩
    · exact h.origin pub hpub
  whole pub hpub := by
    rcases List.mem_cons.mp hpub with rfl | hpub
    · exact ⟨verifyFile_path hok, fun _ ↦ ⟨rfl, hsync⟩⟩
    · exact ⟨(h.whole pub hpub).verified, (h.whole pub hpub).kept⟩

theorem Inv.putEmpty (h : s.Inv pf) (hphase : ∀ dir i opened stage,
    phase ≠ .staged dir i opened stage) (hreturned : ∀ info, phase ≠ .returned info) :
    (s.put n args phase).Inv pf :=
  h.put (fun he ↦ absurd he (hphase _ _ _ _)) fun he ↦ absurd he (hreturned _)

theorem Inv.putStage (h : s.Inv pf) {stage' : Stage δ}
    (hjob : s.jobs n = some ⟨args, .staged dir i opened stage⟩)
    (hreached : s.Reached pf n args dir i stage') :
    (s.put n args (.staged dir i opened stage')).Inv pf := by
  refine h.put (fun he ↦ ?_) fun he ↦ nomatch he
  cases he
  exact ⟨(h.staged hjob).1, hreached⟩

theorem Others.inv (ho : s.Others s') (h : s.Inv pf) : s'.Inv pf := by
  have hopen : ∀ i, s'.Unpublished i ↔ s.Unpublished i := by
    intro i
    unfold State.Unpublished
    rw [ho.published]
  have hown : ∀ m ∈ s.made, s.Unpublished m.inode → s'.disk.contents m.inode =
      s.disk.contents m.inode ∧ s'.disk.synced m.inode = s.disk.synced m.inode := by
    intro m hm hfree
    exact (ho.marked _ ((ho.apart m hm hfree).trans (h.untouched m hm hfree))).2
  refine ⟨ho.made ▸ h.distinct, ho.made ▸ h.named, fun hjob ↦ ?_, fun hjob ↦ ?_,
    fun m hm hfree p hp ↦ ?_,
    fun m hm hfree ↦ ?_, fun pub hpub ↦ ?_, fun pub hpub ↦ ?_⟩
  · rw [ho.jobs] at hjob
    obtain ⟨hmade, hreached⟩ := h.staged hjob
    exact ⟨ho.made ▸ hmade, hreached.congr (hopen _).mpr (fun _ hp ↦ ho.published ▸ hp)
      (hown _ hmade)⟩
  · rw [ho.jobs] at hjob
    rw [ho.published]
    exact h.returned hjob
  · rw [ho.made] at hm
    rw [hopen] at hfree
    refine h.hidden m hm hfree p ?_
    rcases hp with hp | hp
    · exact Or.inl (ho.names m hm hfree p hp)
    · exact Or.inr (ho.stable ▸ hp)
  · rw [ho.made] at hm
    rw [hopen] at hfree
    exact (ho.apart m hm hfree).trans (h.untouched m hm hfree)
  · rw [ho.published] at hpub
    rw [ho.made]
    exact h.origin pub hpub
  · rw [ho.published] at hpub
    refine ⟨(h.whole pub hpub).verified, fun htouched ↦ ?_⟩
    obtain ⟨hbefore, hc, hs⟩ := ho.marked _ htouched
    obtain ⟨hfile, hsync⟩ := (h.whole pub hpub).kept hbefore
    exact ⟨hc.trans hfile, hs.trans hsync⟩

theorem Inv.beside_ne (h : s.Inv pf) {p : FilePath} (beside : s.BesideSource args p)
    (found : s.disk.names p = some (.file i) ∨ s.disk.names p = none ∧
      (∀ m ∈ s.made, m.inode ≠ i) ∧ ∀ q, ¬ s.disk.Leads q i) {m : Made ι} (hm : m ∈ s.made)
    (hfree : s.Unpublished m.inode) : m.inode ≠ i := by
  rcases found with hfile | ⟨-, hnew, -⟩
  · rintro rfl
    have hp := h.hidden m hm hfree p (Or.inl hfile)
    obtain ⟨kind, hname⟩ := h.named m hm
    exact walName_ne beside kind (hp.trans (congrArg (fun name ↦ m.dir ++ [name]) hname))
  · exact hnew m hm

theorem lose_staged {job : Job ι δ} : job.lose ≠ ⟨args, .staged dir i opened stage⟩ := by
  obtain ⟨args', phase⟩ := job
  cases phase <;> simp [Job.lose]

theorem lose_returned {job : Job ι δ} (h : job.lose = ⟨args, .returned info⟩) :
    job = ⟨args, .returned info⟩ := by
  obtain ⟨args', phase⟩ := job
  cases phase <;> simp_all [Job.lose]

theorem Fresh.inv (h : s.Fresh) : s.Inv pf where
  distinct := by simp [h.made]
  named m hm := by simp [h.made] at hm
  staged hjob := by simp [h.jobs] at hjob
  returned hjob := by simp [h.jobs] at hjob
  hidden m hm := by simp [h.made] at hm
  untouched m hm := by simp [h.made] at hm
  origin pub hpub := by simp [h.published] at hpub
  whole pub hpub := by simp [h.published] at hpub

section Steps

variable [DecidableEq ι]

theorem Inv.make (h : s.Inv pf) {m : Made ι} {file : Contents β ρ}
    (hname : ∃ kind, m.name = stagedName kind) (new : ∀ m' ∈ s.made, m'.inode ≠ m.inode)
    (unnamed : ∀ p, ¬ s.disk.Leads p m.inode)
    (clean : s.touched m.inode = false) :
    (s.make m file).Inv pf where
  distinct := by
    refine List.nodup_cons.mpr ⟨fun hm ↦ ?_, h.distinct⟩
    obtain ⟨m', hm', he⟩ := List.mem_map.mp hm
    exact new m' hm' he
  named m' hm' := by
    rcases List.mem_cons.mp hm' with rfl | hm'
    · exact hname
    · exact h.named m' hm'
  staged hjob := by
    obtain ⟨hmade, hreached⟩ := h.staged hjob
    refine ⟨List.mem_cons_of_mem _ hmade, hreached.congr id (fun _ ↦ id) fun _ ↦ ?_⟩
    exact Disk.write_of_ne (d := s.disk) (new _ hmade)
  returned := h.returned
  hidden m' hm' hopen p hp := by
    rcases Disk.Leads.of_setName hp with hp | ⟨rfl, he⟩
    · rcases List.mem_cons.mp hm' with rfl | hm'
      · exact absurd hp (unnamed p)
      · exact h.hidden m' hm' hopen p hp
    · simp only [Option.some.injEq, DirEntry.file.injEq] at he
      rcases List.mem_cons.mp hm' with rfl | hm'
      · rfl
      · exact absurd he.symm (new m' hm')
  untouched m' hm' hopen := by
    rcases List.mem_cons.mp hm' with rfl | hm'
    · exact clean
    · exact h.untouched m' hm' hopen
  origin pub hpub := by
    obtain ⟨m', hm', he⟩ := h.origin pub hpub
    exact ⟨m', List.mem_cons_of_mem _ hm', he⟩
  whole pub hpub := by
    refine ⟨(h.whole pub hpub).verified, fun htouched ↦ ?_⟩
    obtain ⟨m', hm', he⟩ := h.origin pub hpub
    have hne : pub.inode ≠ m.inode := he ▸ new m' hm'
    obtain ⟨hfile, hsync⟩ := (h.whole pub hpub).kept htouched
    obtain ⟨hc, hs⟩ := Disk.write_of_ne (d := s.disk) (a := file) hne
    exact ⟨hc.trans hfile, hs.trans hsync⟩

theorem Inv.writeBeside (h : s.Inv pf) {p : FilePath} {file : Contents β ρ}
    (hne : ∀ m ∈ s.made, s.Unpublished m.inode → m.inode ≠ i) :
    (s.writeBeside p i file).Inv pf where
  distinct := h.distinct
  named := h.named
  staged hjob := by
    obtain ⟨hmade, hreached⟩ := h.staged hjob
    exact ⟨hmade, hreached.congr id (fun _ ↦ id) fun hfree ↦
      Disk.write_of_ne (d := s.disk) (hne _ hmade hfree)⟩
  returned := h.returned
  hidden m hm hfree q hq := by
    rcases Disk.Leads.of_setName hq with hq | ⟨-, he⟩
    · exact h.hidden m hm hfree q hq
    · simp only [Option.some.injEq, DirEntry.file.injEq] at he
      exact absurd he.symm (hne m hm hfree)
  untouched m hm hfree :=
    (Function.update_of_ne (hne m hm hfree) ..).trans (h.untouched m hm hfree)
  origin := h.origin
  whole pub hpub := by
    refine ⟨(h.whole pub hpub).verified, fun htouched ↦ ?_⟩
    by_cases hi : pub.inode = i
    · simp [State.writeBeside, hi] at htouched
    · obtain ⟨hc, hs⟩ := Disk.write_of_ne (d := s.disk) (a := file) hi
      have hbefore : s.touched pub.inode = false :=
        (Function.update_of_ne hi ..).symm.trans htouched
      obtain ⟨hfile, hsync⟩ := (h.whole pub hpub).kept hbefore
      exact ⟨hc.trans hfile, hs.trans hsync⟩

theorem Act.inv (ha : s.Act pf n s') (h : s.Inv pf) (hhoused : s.Housed) : s'.Inv pf := by
  cases ha with
  | aim | clear | accept | raise _ _ =>
    refine h.putEmpty ?_ ?_ <;> simp
  | makeDir random job new =>
    refine (h.setName fun i ↦ by simp).putEmpty ?_ ?_ <;> simp
  | openFiles job source new unnamed clean =>
    refine Inv.put (h.make (m := ⟨n, _, stagedName _, _⟩) ⟨_, rfl⟩ new unnamed clean) (fun he ↦ ?_)
      fun he ↦ nomatch he
    cases he
    refine ⟨List.mem_cons_self, fun pub hpub ↦ ?_⟩
    obtain ⟨m, hm, he⟩ := h.origin pub hpub
    exact he ▸ new m hm
  | copyPages file job =>
    refine h.ownFile job (h.staged job).2 (fun s' _ _ hp _ ↦ ?_)
      (fun j hj ↦ Disk.write_of_ne hj) fun _ _ hp ↦ hp
    intro pub hpub
    exact (h.staged job).2 pub (hp ▸ hpub)
  | copied bytes job read =>
    have hfree := (h.staged job).2
    refine Inv.putStage (h.ownFile job hfree (fun s' _ _ hp _ pub hpub ↦ hfree pub (hp ▸ hpub))
      (fun j hj ↦ Disk.write_of_ne hj) fun _ _ hp ↦ hp) job hfree
  | verify job ok =>
    exact h.putStage job ⟨(h.staged job).2, verifyBackup_ok ok (fileAt_of_names
      (hhoused.named job rfl))⟩
  | fsync job =>
    obtain ⟨hfree, hok⟩ := (h.staged job).2
    have hnext := h.ownFile (d := s.disk.sync _) job hfree (fun s' _ _ hp hd ↦ ?_)
      (fun j hj ↦ Disk.sync_of_ne hj) fun _ _ hp ↦ hp
    · exact hnext.putStage job ⟨hfree, hok, Disk.sync_self ..⟩
    · exact ⟨fun pub hpub ↦ hfree pub (hp ▸ hpub), hd ▸ hok⟩
  | recheck job restore ok => exact h.putStage job (h.staged job).2
  | ready job ok => exact h.putStage job (h.staged job).2
  | @link args dir i opened info job new free =>
    have hreached := (h.staged job).2
    have hall : s.Unpublished i ∧ verifyFile pf (dir ++ [stagedName args.kind])
        args.allowUnversioned (s.disk.contents i) = .ok info ∧ s.disk.synced i = true := by
      split at hreached
      · exact hreached
      · exact hreached
    exact h.publish job hall.2.1 hall.2.2
  | replace job restore replace =>
    obtain ⟨-, hok, hsync⟩ := (h.staged job).2
    exact (h.setName fun i ↦ by simp).publish job hok hsync
  | sidecar file job reads beside found =>
    exact h.writeBeside fun m hm hfree ↦ h.beside_ne beside found hm hfree
  | finish job =>
    refine (h.cleanUp _ _).put (fun he ↦ nomatch he) fun he ↦ ?_
    cases he
    exact (h.staged job).2
  | raiseEmpty job =>
    refine (h.cleanUp _ _).putEmpty ?_ ?_ <;> simp
  | raiseStaged job =>
    refine (h.cleanUp _ _).putEmpty ?_ ?_ <;> simp

theorem Step.inv (hs : s.Step pf s') (h : s.Inv pf) (hhoused : s.Housed) : s'.Inv pf := by
  cases hs with
  | call n args new apart => exact h.putEmpty (by simp) (by simp)
  | act does => exact does.inv h hhoused
  | others others => exact others.inv h
  | flush p =>
    exact h.onDisk (fun _ _ ↦ ⟨rfl, rfl⟩) fun _ _ _ _ hp ↦ hp.of_flush
  | @powerLoss d loss =>
    refine ⟨h.distinct, h.named, fun hjob ↦ ?_, fun hjob ↦ ?_, fun m hm hfree p hp ↦ ?_,
      h.untouched,
      h.origin, fun pub hpub ↦ ?_⟩
    · obtain ⟨job, -, he⟩ := Option.map_eq_some_iff.mp hjob
      exact absurd he lose_staged
    · obtain ⟨job, hjob, he⟩ := Option.map_eq_some_iff.mp hjob
      exact h.returned (hjob.trans (congrArg some (lose_returned he)))
    · exact h.hidden m hm hfree p (loss.leads hp)
    · refine ⟨(h.whole pub hpub).verified, fun htouched ↦ ?_⟩
      obtain ⟨hfile, hsync⟩ := (h.whole pub hpub).kept htouched
      exact ⟨(loss.contents _ hsync).trans hfile, (congrFun loss.synced _).trans hsync⟩

theorem Runs.inv (hr : Runs pf s s') (h : s.Inv pf) (hhoused : s.Housed) : s'.Inv pf := by
  induction hr with
  | refl => exact h
  | tail hr hs ih => exact hs.inv ih (Runs.housed hr hhoused)

end Steps

/-- A call touches no file but its own unpublished one, and no name outside of its temporary
directory but its target, which is free or which it was told to replace. If its source is in WAL
mode, SQLite keeps its files beside it. -/
structure Careful (s s' : State ι β δ ρ) (n : ℕ) : Prop where
  files : ∀ j, s'.disk.contents j ≠ s.disk.contents j →
    s.Unpublished j ∧ (∃ m ∈ s'.made, m.job = n ∧ m.inode = j) ∨
    ∃ args phase p, s.jobs n = some ⟨args, phase⟩ ∧ s.BesideSource args p ∧
      s'.disk.names p = some (.file j)
  names : ∀ p, s'.disk.names p ≠ s.disk.names p → ∃ args phase, s.jobs n = some ⟨args, phase⟩ ∧
    ((∃ random, args.target.dropLast ++ [tempPrefix args.kind ++ random] <+: p) ∨
      p = args.target ∧ (s.disk.names p = none ∨
        args.kind = .restore ∧ args.offline = true ∧ args.replace = true) ∨
      s.BesideSource args p ∧ s.disk.names p = none)

theorem Careful.of_disk (h : s'.disk = s.disk) : s.Careful s' n :=
  ⟨fun j hj ↦ absurd (by rw [h]) hj, fun p hp ↦ absurd (by rw [h]) hp⟩

theorem Careful.cleanUp {job : Job ι δ} (hjob : s.jobs n = some job) (hdir : ∃ random,
      dir = job.args.target.dropLast ++ [tempPrefix job.args.kind ++ random])
    (hdisk : s'.disk = (s.cleanUp job.args.kind dir).disk) : s.Careful s' n := by
  obtain ⟨random, hdir⟩ := hdir
  refine ⟨fun j hj ↦ absurd (by rw [hdisk]; rfl) hj, fun p hp ↦ ⟨job.args, job.phase, hjob, ?_⟩⟩
  refine Or.inl ⟨random, ?_⟩
  rw [← hdir]
  by_cases hself : p = dir
  · exact hself ▸ List.prefix_rfl
  · by_cases hpath : p = dir ++ [stagedName job.args.kind]
    · exact hpath ▸ List.prefix_append ..
    · refine absurd ?_ hp
      rw [hdisk]
      exact (Disk.setName_of_ne hself).trans (Disk.setName_of_ne hpath)

variable [DecidableEq ι]

theorem Careful.ownFile {i : ι} (hm : ∃ m ∈ s'.made, m.job = n ∧ m.inode = i)
    (hfree : s.Unpublished i)
    (hcontents : ∀ j, j ≠ i → s'.disk.contents j = s.disk.contents j)
    (hnames : ∀ p, s'.disk.names p ≠ s.disk.names p → ∃ args phase,
      s.jobs n = some ⟨args, phase⟩ ∧
        ∃ random, args.target.dropLast ++ [tempPrefix args.kind ++ random] <+: p) :
    s.Careful s' n := by
  refine ⟨fun j hj ↦ ?_, fun p hp ↦ ?_⟩
  · by_cases hi : j = i
    · exact Or.inl (hi ▸ ⟨hfree, hm⟩)
    · exact absurd (hcontents j hi) hj
  · obtain ⟨args, phase, hjob, htemp⟩ := hnames p hp
    exact ⟨args, phase, hjob, Or.inl htemp⟩

theorem Act.careful (ha : s.Act pf n s') (h : s.Inv pf) (hhoused : s.Housed) :
    s.Careful s' n := by
  cases ha with
  | aim | clear | accept | verify | recheck | ready | raise => exact .of_disk rfl
  | makeDir random job new =>
    refine ⟨fun j hj ↦ absurd rfl hj, fun p hp ↦ ⟨_, _, job, Or.inl ⟨random, ?_⟩⟩⟩
    by_contra hne
    refine hp (Disk.setName_of_ne fun he ↦ hne ?_)
    exact he ▸ List.prefix_rfl
  | @openFiles args dir i opened file job source new unnamed clean =>
    obtain ⟨random, hdir⟩ := (hhoused.placed job).temporary rfl
    refine Careful.ownFile ⟨_, List.mem_cons_self, rfl, rfl⟩ (fun pub hpub ↦ ?_)
      (fun j hj ↦ (Disk.write_of_ne hj).1) fun p hp ↦ ⟨_, _, job, random, ?_⟩
    · obtain ⟨m, hm, he⟩ := h.origin pub hpub
      exact he ▸ new m hm
    · by_contra hne
      refine hp (Disk.setName_of_ne fun he ↦ hne ?_)
      rw [he, hdir]
      exact List.prefix_append ..
  | copyPages file job =>
    obtain ⟨hmade, hfree⟩ := h.staged job
    exact .ownFile ⟨_, hmade, rfl, rfl⟩ hfree (fun j hj ↦ (Disk.write_of_ne hj).1)
      fun p hp ↦ absurd rfl hp
  | copied bytes job read =>
    obtain ⟨hmade, hfree⟩ := h.staged job
    exact .ownFile ⟨_, hmade, rfl, rfl⟩ hfree (fun j hj ↦ (Disk.write_of_ne hj).1)
      fun p hp ↦ absurd rfl hp
  | fsync job => exact ⟨fun j hj ↦ absurd rfl hj, fun p hp ↦ absurd rfl hp⟩
  | @link args dir i opened info job new free =>
    refine ⟨fun j hj ↦ absurd rfl hj, fun p hp ↦ ⟨_, _, job, Or.inr (Or.inl ?_)⟩⟩
    by_cases htarget : p = args.target
    · exact ⟨htarget, Or.inl (htarget ▸ free)⟩
    · exact absurd (Disk.setName_of_ne htarget) hp
  | @replace args dir i opened info job restore replace =>
    obtain ⟨hoffline, random, hdir⟩ := hhoused.placed job
    refine ⟨fun j hj ↦ absurd rfl hj, fun p hp ↦ ⟨_, _, job, ?_⟩⟩
    by_cases htarget : p = args.target
    · exact Or.inr (Or.inl ⟨htarget, Or.inr ⟨restore, hoffline restore, replace⟩⟩)
    · refine Or.inl ⟨random, ?_⟩
      by_contra hne
      refine hp ((Disk.setName_of_ne htarget).trans (Disk.setName_of_ne fun he ↦ hne ?_))
      rw [he, hdir]
      exact List.prefix_append ..
  | @sidecar args phase p i file job reads beside found =>
    refine ⟨fun j hj ↦ Or.inr ⟨args, phase, p, job, beside, ?_⟩, fun q hq ↦ ?_⟩
    · by_cases hi : j = i
      · exact hi ▸ Disk.setName_self ..
      · exact absurd (Disk.write_of_ne hi).1 hj
    · have hp : q = p := by
        by_contra hne
        exact hq (Disk.setName_of_ne hne)
      subst hp
      refine ⟨args, phase, job, Or.inr (Or.inr ⟨beside, ?_⟩)⟩
      rcases found with hfile | ⟨hnone, -⟩
      · exact absurd ((Disk.setName_self ..).trans hfile.symm) hq
      · exact hnone
  | finish job => exact .cleanUp job ((hhoused.placed job).temporary rfl) rfl
  | raiseEmpty job => exact .cleanUp job ((hhoused.placed job).temporary rfl) rfl
  | raiseStaged job => exact .cleanUp job ((hhoused.placed job).temporary rfl) rfl

theorem Runs.step {s₀ : State ι β δ ρ} (hr : Runs pf s₀ s) (hs : s.Step pf s') :
    Runs pf s₀ s' := hr.tail hs

theorem Runs.act {s₀ : State ι β δ ρ} (hr : Runs pf s₀ s) (ha : s.Act pf n s') :
    Runs pf s₀ s' := hr.tail (.act ha)

/-- However backups, restores, the API and power losses interleave: what a call has published passes
the verification that it reports and stays as it is until others write to it, no name leads to
anything less, and nothing else is changed on the way. -/
theorem backups_are_whole {s₀ : State ι β δ ρ} (hr : Runs pf s₀ s) (h₀ : s₀.Fresh) :
    (∀ pub ∈ s.published, s.Whole pf pub ∧ (s.touched pub.inode = false →
      s.disk.fileAt pub.args.target = some pub.inode → noSidecars s.disk pub.args.target = .ok () →
        verifyBackup pf s.disk pub.args.target pub.args.allowUnversioned = .ok pub.info)) ∧
    (∀ n args info, s.jobs n = some ⟨args, .returned info⟩ →
      ∃ pub ∈ s.published, pub.job = n ∧ pub.args = args ∧ pub.info = info) ∧
    (∀ m ∈ s.made, ∀ p, s.disk.Leads p m.inode →
      p = m.path ∨ ∃ pub ∈ s.published, pub.inode = m.inode) ∧
    (∀ n s', s.Act pf n s' → s.Careful s' n) := by
  have hinv : s.Inv pf := hr.inv h₀.inv h₀.housed
  have hhoused : s.Housed := hr.housed h₀.housed
  refine ⟨fun pub hpub ↦ ⟨hinv.whole pub hpub, fun htouched hat hclear ↦ ?_⟩,
    fun n args info hjob ↦ hinv.returned hjob, fun m hm p hp ↦ ?_,
    fun n s' ha ↦ ha.careful hinv hhoused⟩
  · have hwhole := hinv.whole pub hpub
    rw [verifyBackup_eq hclear hat, (hwhole.kept htouched).1]
    exact hwhole.verified
  by_cases hopen : s.Unpublished m.inode
  · exact Or.inl (hinv.hidden m hm hopen p hp)
  · unfold State.Unpublished at hopen
    push Not at hopen
    exact Or.inr hopen

end State

def samplePlatform : Platform String String := ⟨"0003", id⟩

def sampleDatabase : Database Unit where
  tables := ("alembic_version" :: serverTables).map fun name ↦ ⟨name, [], []⟩
  revisions := ["0003"]

def sampleFiles : State ℕ String String Unit where
  disk := {
    names := fun p ↦
      if p = ["srv"] then some .directory
      else if p = ["srv", "live"] then some (.file 0)
      else none
    stable := fun _ ↦ none
    contents := fun _ ↦ ⟨"live", some sampleDatabase, true⟩
    synced := fun _ ↦ true }

def sampleBackup : Args where
  kind := .backup
  source := ["srv", "live"]
  target := ["srv", "copy"]

def sampleCopied : State ℕ String String Unit :=
  let dir := sampleBackup.target.dropLast ++ [tempPrefix sampleBackup.kind ++ "x"]
  let info := ⟨dir ++ [stagedName sampleBackup.kind], some "0003", "bytes"⟩
  let put (s : State ℕ String String Unit) := s.put 0 sampleBackup
  let s := put (put sampleFiles .begun) .aimed
  let s := put (s.onDisk (s.disk.setName dir (some .directory))) (.working dir)
  let s := put (s.make ⟨0, dir, stagedName sampleBackup.kind, 1⟩ ⟨"", none, false⟩)
    (.staged dir 1 0 .copying)
  let s := s.writeBeside ["srv", "live-wal"] 2 ⟨"", none, false⟩
  let s := put (s.onDisk (s.disk.write 1 ⟨"bytes", some sampleDatabase, false⟩))
    (.staged dir 1 0 .copied)
  let s := put s (.staged dir 1 0 (.verified info))
  let s := put (s.onDisk (s.disk.sync 1)) (.staged dir 1 0 (.synced info))
  let s := put (s.publish 0 sampleBackup 1 0 info) (.staged dir 1 0 (.published info))
  put (s.cleanUp sampleBackup.kind dir) (.returned { info with path := sampleBackup.target })

theorem sampleBackup_apart : sampleBackup.Apart := Args.apart_of_head (by decide)

theorem sample_backup : State.Runs samplePlatform sampleFiles sampleCopied := by
  have h₀ : State.Runs samplePlatform sampleFiles sampleFiles := .refl
  have h₁ := h₀.step (.call 0 sampleBackup rfl sampleBackup_apart)
  have h₂ := h₁.act (.aim State.jobs_put_self (fun h ↦ nomatch h) rfl)
  have h₃ := h₂.act (.makeDir "x" State.jobs_put_self rfl)
  have h₄ := h₃.act (@State.Act.openFiles _ _ _ _ _ _ _ _ _ _ 1 _ ⟨"", none, false⟩
    State.jobs_put_self rfl (fun m hm ↦ nomatch hm) (fun p ↦ ?_) rfl)
  · have h₅ := h₄.act (.sidecar (p := ["srv", "live-wal"]) (i := 2) ⟨"", none, false⟩
      State.jobs_put_self trivial ⟨0, rfl, rfl, "-wal", by decide, rfl⟩
      (Or.inr ⟨rfl, fun m hm ↦ ?_, fun p ↦ ?_⟩))
    · have h₆ := h₅.act (.copied "bytes" State.jobs_put_self rfl)
      have h₇ := h₆.act (.verify State.jobs_put_self rfl)
      have h₈ := h₇.act (.fsync State.jobs_put_self)
      have h₉ := h₈.act (.link State.jobs_put_self (fun h ↦ nomatch h) rfl)
      exact h₉.act (.finish State.jobs_put_self)
    · obtain rfl := List.mem_singleton.mp hm
      decide
    · rintro (h | h)
      · simp only [State.put, State.onDisk, State.make, sampleFiles, Disk.setName, Disk.write,
          Function.update_apply] at h
        split_ifs at h
        all_goals cases h
      · cases h
  · rintro (h | h)
    · simp only [State.put, State.onDisk, sampleFiles, Disk.setName, Function.update_apply] at h
      split_ifs at h
      all_goals cases h
    · cases h

theorem sampleFiles_fresh : sampleFiles.Fresh := ⟨fun _ ↦ rfl, rfl, rfl⟩

theorem backups_are_whole_sample : sampleCopied.disk.fileAt ["srv", "live-wal"] = some 2 ∧
    sampleCopied.disk.fileAt ["srv", "copy"] = some 1 ∧
    verifyBackup samplePlatform sampleCopied.disk ["srv", "copy"] false =
      .ok ⟨["srv", "copy"], some "0003", "bytes"⟩ :=
  ⟨rfl, rfl, ((State.backups_are_whole sample_backup sampleFiles_fresh).1 _
    List.mem_cons_self).2 rfl rfl rfl⟩

end RiskApp.Server.Backups

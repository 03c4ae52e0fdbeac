import RiskApp.Server.Backups

namespace RiskApp.Server.Backups

open Lib

variable {ι β δ ρ : Type} {pf : Platform β δ}

section Names

theorem tempName_ne_stagedName (kind kind' : Kind) (random : String) :
    tempPrefix kind ++ random ≠ stagedName kind' := by
  intro h
  have hhead := congrArg (fun name : String ↦ name.toList.head?) h
  cases kind <;> cases kind' <;> simp [tempPrefix, stagedName] at hhead

theorem walName_ne_stagedName (name : String) {suffix : String} (hsuffix : suffix ∈ walFiles)
    (kind : Kind) : name ++ suffix ≠ stagedName kind := by
  intro h
  have hlast := congrArg (fun name : String ↦ name.toList.getLast?) h
  simp only [walFiles, List.mem_cons, List.not_mem_nil, or_false] at hsuffix
  rcases hsuffix with rfl | rfl <;> cases kind <;> simp [stagedName] at hlast

theorem last_inj {dir dir' : FilePath} {name name' : String}
    (h : dir ++ [name] = dir' ++ [name']) : dir = dir' ∧ name = name' :=
  (List.append_inj' h rfl).imp_right List.head_eq_of_cons_eq

theorem fileAt_of_names {d : Disk ι (Contents β ρ)} {p : FilePath} {i : ι}
    (h : d.names p = some (.file i)) : d.fileAt p = some i := by
  have hresolve : d.resolve p = p := by
    simp [Disk.resolve, Disk.maxLinks, Disk.follow, h]
  simp [Disk.fileAt, Disk.find, hresolve, h]

theorem Args.apart_of_head {args : Args} (h : ∀ c ∈ args.target, c.toList.head? ≠ some '.') :
    args.Apart := by
  rintro c hc kind random rfl
  exact h _ hc (by cases kind <;> simp [tempPrefix])

end Names

/-- The temporary directory of a call is next to its target, and a restore is made offline. -/
def Job.Placed (job : Job ι δ) : Prop :=
  match job.phase with
  | .begun | .returned _ | .raised => True
  | .aimed | .cleared | .accepted => job.args.kind = .restore → job.args.offline = true
  | .working dir | .staged dir _ _ _ => (job.args.kind = .restore → job.args.offline = true) ∧
      ∃ random, dir = job.args.target.dropLast ++ [tempPrefix job.args.kind ++ random]

theorem Job.Placed.temporary {job : Job ι δ} {dir : FilePath} (h : job.Placed)
    (hdir : job.phase.dir = some dir) :
    ∃ random, dir = job.args.target.dropLast ++ [tempPrefix job.args.kind ++ random] := by
  obtain ⟨args, phase⟩ := job
  cases phase with
  | working | staged =>
    obtain rfl : _ = dir := Option.some.inj hdir
    exact h.2
  | begun | aimed | cleared | accepted | returned | raised => cases hdir

def Stage.isPublished : Stage δ → Bool
  | .published _ => true
  | _ => false

namespace State

/-- Each call under way has a temporary directory of its own, where its file is. -/
structure Housed (s : State ι β δ ρ) : Prop where
  apart : ∀ {n job}, s.jobs n = some job → job.args.Apart
  placed : ∀ {n job}, s.jobs n = some job → job.Placed
  dirs : ∀ {n job dir}, s.jobs n = some job → job.phase.dir = some dir →
    s.disk.names dir = some .directory
  own : ∀ {n k job job' dir}, s.jobs n = some job → s.jobs k = some job' →
    job.phase.dir = some dir → job'.phase.dir = some dir → n = k
  named : ∀ {n args dir i opened stage}, s.jobs n = some ⟨args, .staged dir i opened stage⟩ →
    stage.isPublished = false → s.disk.names (dir ++ [stagedName args.kind]) = some (.file i)

variable {s s' : State ι β δ ρ} {n k : ℕ} {args : Args} {dir dir' : FilePath} {i opened : ι}
  {phase phase' : Phase ι δ} {stage : Stage δ} {p : FilePath} {job job' : Job ι δ}

theorem jobs_put_self : (s.put n args phase).jobs n = some ⟨args, phase⟩ :=
  Function.update_self ..

theorem jobs_put_of_ne (h : k ≠ n) : (s.put n args phase).jobs k = s.jobs k :=
  Function.update_of_ne h ..

/-- The paths in the temporary directory of a call. -/
def Inside (job : Job ι δ) (p : FilePath) : Prop :=
  ∃ dir, job.phase.dir = some dir ∧ (p = dir ∨ p = dir ++ [stagedName job.args.kind])

theorem Housed.put (h : s.Housed) (hjobs : s'.jobs = s.jobs) (hapart : args.Apart)
    (hplaced : (⟨args, phase⟩ : Job ι δ).Placed)
    (hnames : ∀ k job, k ≠ n → s.jobs k = some job → ∀ p, Inside job p →
      s'.disk.names p = s.disk.names p)
    (hown : ∀ k job dir, k ≠ n → s.jobs k = some job → job.phase.dir = some dir →
      phase.dir ≠ some dir)
    (hdir : ∀ dir, phase.dir = some dir → s'.disk.names dir = some .directory)
    (hnamed : ∀ dir i opened stage, phase = .staged dir i opened stage →
      stage.isPublished = false →
      s'.disk.names (dir ++ [stagedName args.kind]) = some (.file i)) :
    (s'.put n args phase).Housed := by
  have hcases : ∀ {k job}, (s'.put n args phase).jobs k = some job →
      k = n ∧ job = ⟨args, phase⟩ ∨ k ≠ n ∧ s.jobs k = some job := by
    intro k job hjob
    by_cases hk : k = n
    · subst hk
      rw [jobs_put_self] at hjob
      exact Or.inl ⟨rfl, (Option.some.inj hjob).symm⟩
    · rw [jobs_put_of_ne hk, hjobs] at hjob
      exact Or.inr ⟨hk, hjob⟩
  refine ⟨fun hjob ↦ ?_, fun hjob ↦ ?_, fun hjob hd ↦ ?_, fun hjob hjob' hd hd' ↦ ?_,
    fun hjob hopen ↦ ?_⟩
  · rcases hcases hjob with ⟨-, rfl⟩ | ⟨-, hjob⟩
    · exact hapart
    · exact h.apart hjob
  · rcases hcases hjob with ⟨-, rfl⟩ | ⟨-, hjob⟩
    · exact hplaced
    · exact h.placed hjob
  · rcases hcases hjob with ⟨-, rfl⟩ | ⟨hk, hjob⟩
    · exact hdir _ hd
    · exact (hnames _ _ hk hjob _ ⟨_, hd, Or.inl rfl⟩).trans (h.dirs hjob hd)
  · rcases hcases hjob with ⟨hn, rfl⟩ | ⟨hn, hjob⟩ <;>
      rcases hcases hjob' with ⟨hk, rfl⟩ | ⟨hk, hjob'⟩
    · exact hn.trans hk.symm
    · exact absurd hd (hown _ _ _ hk hjob' hd')
    · exact absurd hd' (hown _ _ _ hn hjob hd)
    · exact h.own hjob hjob' hd hd'
  · rcases hcases hjob with ⟨-, hsame⟩ | ⟨hk, hjob⟩
    · cases hsame
      exact hnamed _ _ _ _ rfl hopen
    · exact (hnames _ _ hk hjob _ ⟨_, rfl, Or.inr rfl⟩).trans (h.named hjob hopen)

theorem Housed.next (h : s.Housed) (hjob : s.jobs n = some ⟨args, phase⟩)
    (hplaced : (⟨args, phase⟩ : Job ι δ).Placed → (⟨args, phase'⟩ : Job ι δ).Placed)
    (hdir : ∀ dir, phase'.dir = some dir → phase.dir = some dir)
    (hnamed : ∀ dir i opened stage, phase' = .staged dir i opened stage →
      stage.isPublished = false →
      s.disk.names (dir ++ [stagedName args.kind]) = some (.file i))
    (hnames : s'.disk.names = s.disk.names) (hjobs : s'.jobs = s.jobs) :
    (s'.put n args phase').Housed := by
  refine h.put hjobs (h.apart hjob) (hplaced (h.placed hjob))
    (fun k job hk hjob' p hp ↦ by rw [hnames])
    (fun k job dir hk hjob' hd hd' ↦ hk (h.own hjob' hjob hd (hdir dir hd')))
    (fun dir hd ↦ ?_) fun dir i opened stage he hopen ↦ ?_
  · rw [hnames]
    exact h.dirs hjob (hdir dir hd)
  · rw [hnames]
    exact hnamed dir i opened stage he hopen

theorem Housed.outside (h : s.Housed) (hjob : s.jobs k = some job) {q : FilePath}
    (hdir : s.disk.names q ≠ some .directory)
    (hfile : ∀ dir, q ≠ dir ++ [stagedName job.args.kind]) (hp : Inside job p) : p ≠ q := by
  rintro rfl
  obtain ⟨dir, hd, rfl | rfl⟩ := hp
  · exact hdir (h.dirs hjob hd)
  · exact hfile dir rfl

theorem Housed.inside_ne (h : s.Housed) (hjob : s.jobs n = some job) (hjob' : s.jobs k = some job')
    (hk : k ≠ n) (hd : job.phase.dir = some dir) (hp : Inside job' p) :
    p ≠ dir ∧ p ≠ dir ++ [stagedName job.args.kind] := by
  obtain ⟨random, hdir⟩ := (h.placed hjob).temporary hd
  obtain ⟨dir', hd', hp⟩ := hp
  obtain ⟨random', hdir'⟩ := (h.placed hjob').temporary hd'
  have hne : dir' ≠ dir := fun he ↦ hk (h.own hjob' hjob (he ▸ hd') hd)
  rcases hp with rfl | rfl
  · refine ⟨hne, fun he ↦ ?_⟩
    rw [hdir'] at he
    exact tempName_ne_stagedName _ _ _ (last_inj he).2
  · refine ⟨fun he ↦ ?_, fun he ↦ hne (last_inj he).1⟩
    rw [hdir] at he
    exact tempName_ne_stagedName _ _ _ (last_inj he).2.symm

theorem Housed.inside_ne_target (h : s.Housed) (hapart : args.Apart)
    (hjob : s.jobs k = some job) (hp : Inside job p) : p ≠ args.target := by
  rintro rfl
  obtain ⟨dir, hd, hp⟩ := hp
  obtain ⟨random, hdir⟩ := (h.placed hjob).temporary hd
  refine hapart (tempPrefix job.args.kind ++ random) ?_ _ _ rfl
  rcases hp with hp | hp
  · rw [hp, hdir]
    exact List.mem_append_right _ (List.mem_singleton_self _)
  · rw [hp, hdir]
    exact List.mem_append_left _ (List.mem_append_right _ (List.mem_singleton_self _))

theorem walName_ne {q dir : FilePath} (h : s.BesideSource args q) (kind : Kind) :
    q ≠ dir ++ [stagedName kind] := by
  obtain ⟨opened, -, -, suffix, hsuffix, rfl⟩ := h
  exact fun he ↦ walName_ne_stagedName _ hsuffix kind (last_inj he).2

theorem Housed.ownNames (h : s.Housed) (hjob : s.jobs n = some ⟨args, phase⟩)
    (hd : phase.dir = some dir) (hjobs : s'.jobs = s.jobs)
    (hplaced : (⟨args, phase⟩ : Job ι δ).Placed → (⟨args, phase'⟩ : Job ι δ).Placed)
    (hnames : ∀ p, p ≠ dir → p ≠ dir ++ [stagedName args.kind] →
      s'.disk.names p = s.disk.names p)
    (hdir : ∀ dir', phase'.dir = some dir' → dir' = dir ∧ s'.disk.names dir = some .directory)
    (hnamed : ∀ dir i opened stage, phase' = .staged dir i opened stage →
      stage.isPublished = false →
      s'.disk.names (dir ++ [stagedName args.kind]) = some (.file i)) :
    (s'.put n args phase').Housed := by
  refine h.put hjobs (h.apart hjob) (hplaced (h.placed hjob)) (fun k job hk hjob' p hp ↦ ?_)
    (fun k job dir' hk hjob' hd' hd'' ↦ ?_) (fun dir' hd' ↦ ?_) hnamed
  · obtain ⟨hne, hne'⟩ := h.inside_ne hjob hjob' hk hd hp
    exact hnames p hne hne'
  · obtain ⟨rfl, -⟩ := hdir dir' hd''
    exact hk (h.own hjob' hjob hd' hd)
  · obtain ⟨rfl, hdirectory⟩ := hdir dir' hd'
    exact hdirectory

theorem Housed.cleanUp (h : s.Housed) (hjob : s.jobs n = some ⟨args, phase⟩)
    (hd : phase.dir = some dir)
    (hplaced : (⟨args, phase⟩ : Job ι δ).Placed → (⟨args, phase'⟩ : Job ι δ).Placed)
    (hdir : phase'.dir = none) : ((s.cleanUp args.kind dir).put n args phase').Housed := by
  refine h.ownNames hjob hd rfl hplaced (fun p hp hp' ↦ ?_) (fun dir' hd' ↦ ?_)
    fun dir' i opened stage he ↦ ?_
  · exact (Disk.setName_of_ne hp).trans (Disk.setName_of_ne hp')
  · cases hdir.symm.trans hd'
  · rw [he] at hdir
    cases hdir

structure Fresh (s : State ι β δ ρ) : Prop where
  jobs : ∀ n, s.jobs n = none
  made : s.made = []
  published : s.published = []

theorem Fresh.housed (h : s.Fresh) : s.Housed := by
  constructor <;> simp [h.jobs]

variable [DecidableEq ι]

theorem Act.housed (ha : s.Act pf n s') (h : s.Housed) : s'.Housed := by
  cases ha with
  | aim job offline ok => exact h.next job (fun _ ↦ offline) (by simp [Phase.dir]) (by simp) rfl rfl
  | clear job restore ok =>
    exact h.next job id (by simp [Phase.dir]) (by simp) rfl rfl
  | accept job ok => exact h.next job id (by simp [Phase.dir]) (by simp) rfl rfl
  | @makeDir args random job new =>
    have hplaced := h.placed job
    refine h.put rfl (h.apart job) ⟨?_, random, rfl⟩ (fun k job' hk hjob' p hp ↦ ?_)
      (fun k job' dir hk hjob' hd hd' ↦ ?_) (fun dir hd ↦ ?_) (by simp)
    · split at hplaced
      · exact hplaced
      · exact hplaced
    · refine Disk.setName_of_ne (h.outside hjob' (by rw [new]; simp) (fun dir he ↦ ?_) hp)
      exact tempName_ne_stagedName _ _ _ (last_inj he).2
    · obtain rfl := Option.some.inj hd'
      rw [h.dirs hjob' hd] at new
      cases new
    · obtain rfl := Option.some.inj hd
      exact Disk.setName_self ..
  | @openFiles args dir i opened file job source new unnamed clean =>
    obtain ⟨random, hdir⟩ := (h.placed job).temporary rfl
    have hne : dir ≠ dir ++ [stagedName args.kind] := by simp
    refine h.ownNames job rfl rfl id (fun p hp hp' ↦ Disk.setName_of_ne hp')
      (fun dir' hd ↦ ⟨(Option.some.inj hd).symm, ?_⟩) fun dir' i' opened' stage he _ ↦ ?_
    · exact (Disk.setName_of_ne hne).trans (h.dirs job rfl)
    · cases he
      exact Disk.setName_self ..
  | copyPages file job => exact ⟨h.apart, h.placed, h.dirs, h.own, h.named⟩
  | copied bytes job read =>
    exact h.next job id (fun _ ↦ id) (fun _ _ _ _ he _ ↦ by
      cases he
      exact h.named job rfl) rfl rfl
  | verify job ok | fsync job | recheck job restore ok | ready job ok =>
    exact h.next job id (fun _ ↦ id) (fun _ _ _ _ he _ ↦ by
      cases he
      exact h.named job rfl) rfl rfl
  | @sidecar args phase p i file job reads beside found =>
    have hdir : s.disk.names p ≠ some .directory := by
      rcases found with hfile | ⟨hnone, -⟩
      · simp [hfile]
      · simp [hnone]
    have hnames : ∀ {k job q}, s.jobs k = some job → Inside job q →
        (s.writeBeside p i file).disk.names q = s.disk.names q := by
      intro k job q hjob hq
      exact Disk.setName_of_ne (h.outside hjob hdir (fun _ ↦ walName_ne beside _) hq)
    exact ⟨h.apart, h.placed, fun hjob hd ↦ (hnames hjob ⟨_, hd, Or.inl rfl⟩).trans
      (h.dirs hjob hd), h.own, fun hjob hopen ↦
      (hnames hjob ⟨_, rfl, Or.inr rfl⟩).trans (h.named hjob hopen)⟩
  | @link args dir i opened info job new free =>
    have hnames : ∀ {k job q}, s.jobs k = some job → Inside job q →
        (s.publish n args i opened info).disk.names q = s.disk.names q := by
      intro k job' q hjob' hq
      exact Disk.setName_of_ne (h.inside_ne_target (h.apart job) hjob' hq)
    refine h.put rfl (h.apart job) ?_ (fun k job' hk hjob' p hp ↦ hnames hjob' hp)
      (fun k job' dir' hk hjob' hd hd' ↦ ?_) (fun dir' hd ↦ ?_) fun _ _ _ _ he hopen ↦ ?_
    · have hplaced := h.placed job
      split at hplaced
      · exact hplaced
      · exact hplaced
    · exact hk (h.own hjob' job hd hd')
    · exact (hnames job ⟨_, hd, Or.inl rfl⟩).trans (h.dirs job hd)
    · cases he
      cases hopen
  | @replace args dir i opened info job restore replace =>
    have hne : dir ≠ dir ++ [stagedName args.kind] := by simp
    refine h.put rfl (h.apart job) (h.placed job :) (fun k job' hk hjob' p hp ↦ ?_)
      (fun k job' dir' hk hjob' hd hd' ↦ ?_) (fun dir' hd ↦ ?_) fun _ _ _ _ he hopen ↦ ?_
    · exact (Disk.setName_of_ne (h.inside_ne_target (h.apart job) hjob' hp)).trans
        (Disk.setName_of_ne (h.inside_ne job hjob' hk rfl hp).2)
    · exact hk (h.own hjob' job hd hd')
    · obtain rfl := Option.some.inj hd
      exact (Disk.setName_of_ne (h.inside_ne_target (h.apart job) job ⟨_, rfl, Or.inl rfl⟩)).trans
        ((Disk.setName_of_ne hne).trans (h.dirs job rfl))
    · cases he
      cases hopen
  | finish job => exact h.cleanUp job rfl (fun _ ↦ trivial) rfl
  | raise job active => exact h.next job (fun _ ↦ trivial) (by simp [Phase.dir]) (by simp) rfl rfl
  | raiseEmpty job => exact h.cleanUp job rfl (fun _ ↦ trivial) rfl
  | raiseStaged job => exact h.cleanUp job rfl (fun _ ↦ trivial) rfl

theorem Step.housed (hs : s.Step pf s') (h : s.Housed) : s'.Housed := by
  cases hs with
  | call n args new apart =>
    exact h.put rfl apart trivial (fun _ _ _ _ _ _ ↦ rfl) (fun _ _ _ _ _ _ hd ↦ nomatch hd)
      (fun _ hd ↦ nomatch hd) fun _ _ _ _ he ↦ nomatch he
  | act does => exact does.housed h
  | others others =>
    have hjobs : ∀ {k job}, s'.jobs k = some job → s.jobs k = some job := fun hjob ↦
      others.jobs ▸ hjob
    refine ⟨fun hjob ↦ h.apart (hjobs hjob), fun hjob ↦ h.placed (hjobs hjob),
      fun hjob hd ↦ ?_, fun hjob hjob' ↦ h.own (hjobs hjob) (hjobs hjob'), fun hjob hopen ↦ ?_⟩
    · exact (others.temps _ _ _ (hjobs hjob) hd _ List.prefix_rfl).trans (h.dirs (hjobs hjob) hd)
    · exact (others.temps _ _ _ (hjobs hjob) rfl _ (List.prefix_append ..)).trans
        (h.named (hjobs hjob) hopen)
  | flush p => exact ⟨h.apart, h.placed, h.dirs, h.own, h.named⟩
  | powerLoss loss =>
    have hjobs : ∀ {k job}, ((s.jobs k).map Job.lose) = some job → job.Placed ∧ job.args.Apart ∧
        job.phase.dir = none := by
      intro k job hjob
      obtain ⟨⟨args, phase⟩, hbefore, rfl⟩ := Option.map_eq_some_iff.mp hjob
      have hapart := h.apart hbefore
      cases phase <;> exact ⟨trivial, hapart, rfl⟩
    refine ⟨fun hjob ↦ (hjobs hjob).2.1, fun hjob ↦ (hjobs hjob).1, fun hjob hd ↦ ?_,
      fun hjob _ hd ↦ ?_, fun hjob ↦ nomatch (hjobs hjob).2.2⟩
    · cases (hjobs hjob).2.2.symm.trans hd
    · cases (hjobs hjob).2.2.symm.trans hd

theorem Runs.housed (hr : Runs pf s s') (h : s.Housed) : s'.Housed := by
  induction hr with
  | refl => exact h
  | tail _ hs ih => exact hs.housed ih

end State

end RiskApp.Server.Backups

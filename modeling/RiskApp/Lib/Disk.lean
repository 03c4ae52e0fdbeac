import Mathlib.Data.Nat.Notation
import Mathlib.Logic.Function.Basic

namespace RiskApp.Lib

abbrev FilePath := List String

inductive DirEntry (ι : Type)
  | file (i : ι)
  | symlink (target : FilePath)
  | directory
  deriving DecidableEq

/-- A file system. `stable` is what the names lead to after a power loss, and a file keeps what it
holds then if it has been forced out. -/
structure Disk (ι α : Type) where
  names : FilePath → Option (DirEntry ι)
  stable : FilePath → Option (DirEntry ι)
  contents : ι → α
  synced : ι → Bool

namespace Disk

variable {ι α : Type}

def follow (d : Disk ι α) : ℕ → FilePath → FilePath
  | 0, p => p
  | n + 1, p => match d.names p with
    | some (.symlink target) => d.follow n target
    | _ => p

def maxLinks : ℕ := 40

def resolve (d : Disk ι α) (p : FilePath) : FilePath := d.follow maxLinks p

/-- What is found behind a name; too many links lead nowhere. -/
def find (d : Disk ι α) (p : FilePath) : Option (DirEntry ι) :=
  match d.names (d.resolve p) with
  | some (.symlink _) => none
  | found => found

def fileAt (d : Disk ι α) (p : FilePath) : Option ι :=
  match d.find p with
  | some (.file i) => some i
  | _ => none

def isSymlink (d : Disk ι α) (p : FilePath) : Bool :=
  match d.names p with
  | some (.symlink _) => true
  | _ => false

def isDir (d : Disk ι α) (p : FilePath) : Bool :=
  match d.find p with
  | some .directory => true
  | _ => false

def setName (d : Disk ι α) (p : FilePath) (e : Option (DirEntry ι)) : Disk ι α :=
  { d with names := Function.update d.names p e }

def flush (d : Disk ι α) (p : FilePath) : Disk ι α :=
  { d with stable := Function.update d.stable p (d.names p) }

/-- The names fall back to what has reached the medium, and only what was forced out is kept. -/
structure PowerLoss (d d' : Disk ι α) : Prop where
  names : d'.names = d.stable
  stable : d'.stable = d.stable
  synced : d'.synced = d.synced
  contents : ∀ i, d.synced i = true → d'.contents i = d.contents i

/-- A name leads to a file now, or will after a power loss. -/
def Leads (d : Disk ι α) (p : FilePath) (i : ι) : Prop :=
  d.names p = some (.file i) ∨ d.stable p = some (.file i)

section Names

variable (d : Disk ι α) (p : FilePath) (e : Option (DirEntry ι))

@[simp] theorem setName_self : (d.setName p e).names p = e := Function.update_self ..

@[simp] theorem flush_self : (d.flush p).stable p = d.names p := Function.update_self ..

variable {d p e} {q : FilePath} {j : ι}

theorem setName_of_ne (h : q ≠ p) : (d.setName p e).names q = d.names q :=
  Function.update_of_ne h ..

theorem flush_of_ne (h : q ≠ p) : (d.flush p).stable q = d.stable q :=
  Function.update_of_ne h ..

theorem Leads.of_setName (h : (d.setName p e).Leads q j) :
    d.Leads q j ∨ q = p ∧ e = some (.file j) := by
  rcases h with h | h
  · by_cases hq : q = p
    · rw [hq, setName_self] at h
      exact Or.inr ⟨hq, h⟩
    · rw [setName_of_ne hq] at h
      exact Or.inl (Or.inl h)
  · exact Or.inl (Or.inr h)

theorem Leads.of_flush (h : (d.flush p).Leads q j) : d.Leads q j := by
  rcases h with h | h
  · exact Or.inl h
  · by_cases hq : q = p
    · rw [hq, flush_self] at h
      exact Or.inl (hq ▸ h)
    · rw [flush_of_ne hq] at h
      exact Or.inr h

theorem PowerLoss.leads {d' : Disk ι α} (h : d.PowerLoss d') (hleads : d'.Leads q j) :
    d.Leads q j := by
  rcases hleads with hn | hs
  · exact Or.inr (h.names ▸ hn)
  · exact Or.inr (h.stable ▸ hs)

end Names

section Files

variable [DecidableEq ι]

def write (d : Disk ι α) (i : ι) (a : α) : Disk ι α :=
  { d with contents := Function.update d.contents i a, synced := Function.update d.synced i false }

def sync (d : Disk ι α) (i : ι) : Disk ι α := { d with synced := Function.update d.synced i true }

variable (d : Disk ι α) (p : FilePath) (i : ι) (a : α)

@[simp] theorem write_self : (d.write i a).contents i = a := Function.update_self ..

@[simp] theorem sync_self : (d.sync i).synced i = true := Function.update_self ..

variable {d p i a} {j : ι}

theorem write_of_ne (h : j ≠ i) :
    (d.write i a).contents j = d.contents j ∧ (d.write i a).synced j = d.synced j :=
  ⟨Function.update_of_ne h .., Function.update_of_ne h ..⟩

theorem sync_of_ne (h : j ≠ i) :
    (d.sync i).contents j = d.contents j ∧ (d.sync i).synced j = d.synced j :=
  ⟨rfl, Function.update_of_ne h ..⟩

end Files

end Disk

end RiskApp.Lib

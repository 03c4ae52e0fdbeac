import RiskApp.Server.Mutations

namespace RiskApp.Server

open Lib Lib.Result

def PushError.Plain : PushError → Prop
  | .conflict .. => False
  | .http statusCode _ => statusCode = 400
  | _ => True

def PushError.BadRequest : PushError → Prop
  | .http statusCode _ => statusCode = 400
  | _ => False

theorem PushError.BadRequest.plain (e : PushError) (h : e.BadRequest) : e.Plain := by
  cases e with
  | http statusCode detail => exact h
  | _ => cases h

section BadRequest

variable (conv : Conv) (d : Data)

theorem parseUuid_badRequest (name : String) (v : Val) :
    Raises PushError.BadRequest (parseUuid conv name v) := by
  unfold parseUuid
  split
  · exact .ok _
  · exact .error rfl
  · split
    · exact .ok _
    · exact .error rfl

theorem parseRecord_badRequest (entity : Entity) (record : Dict) :
    Raises PushError.BadRequest (parseRecord conv entity record) := by
  unfold parseRecord
  split
  · exact .error rfl
  · simp only
    split
    · split
      · exact .error rfl
      · exact .ok _
    · split <;> exact .ok _

theorem ensureTarget_badRequest (projectId : Uuid) (target : Val) (expected : Option Entity) :
    Raises PushError.BadRequest (ensureTarget conv d projectId target expected) := by
  unfold ensureTarget
  refine .bind (parseUuid_badRequest conv _ _) fun itemId ↦ ?_
  unfold ensureItemInProject
  exact .require _ rfl

theorem validateRelationships_badRequest (projectId : Uuid) (entity : Entity) (val : Parsed)
    (obj : Option Row) :
    Raises PushError.BadRequest (validateRelationships conv d projectId entity val obj) := by
  unfold validateRelationships
  split
  · unfold validateParent
    lift_lets
    intro target
    split
    · exact ensureTarget_badRequest conv d _ _ _
    · exact .require _ rfl
  · split
    · exact ensureTarget_badRequest conv d _ _ _
    · exact .ok _
  · exact .ok _

end BadRequest

section Plain

variable (conv : Conv) (d : Data)

theorem usedCodes_plain (fold : Char → Char) (codePrefix : Char) (codes : List Val) :
    Raises PushError.Plain (usedCodes fold codePrefix codes) := by
  induction codes with
  | nil => exact .ok _
  | cons v codes ih =>
    simp only [usedCodes]
    split
    · exact ih
    · split
      · exact .map _ ih
      · exact .error trivial

theorem canonicalItemCode_plain (projectId : Uuid) (entity : Entity) (requested : Val) :
    Raises PushError.Plain (canonicalItemCode conv d projectId entity requested) := by
  unfold canonicalItemCode
  lift_lets
  intro code codes codePrefix
  split
  · exact .ok _
  · split
    · exact .ok _
    · exact .bind (usedCodes_plain _ _ _) fun _ ↦ .ok _

theorem createNew_plain (userId projectId : Uuid) (entity : Entity) (entityId : Uuid)
    (record : Dict) (now : Time) :
    Raises PushError.Plain (createNew conv d userId projectId entity entityId record now) := by
  unfold createNew
  refine .bind ((parseRecord_badRequest conv _ _).mono PushError.BadRequest.plain) fun val ↦
    .bind ?_ fun _ ↦ .bind ((validateRelationships_badRequest conv d _ _ _ _).mono
      PushError.BadRequest.plain) fun _ ↦ .ok _
  unfold withItemCode
  split
  · exact .map _ (canonicalItemCode_plain conv d _ _ _)
  · exact .ok _

theorem updateExisting_plain (projectId : Uuid) (entity : Entity) (r : Row) (record : Dict)
    (now : Time) : Raises PushError.Plain (updateExisting conv d projectId entity r record now) :=
  .bind ((parseRecord_badRequest conv _ _).mono PushError.BadRequest.plain) fun _ ↦
    .bind ((validateRelationships_badRequest conv d _ _ _ _).mono PushError.BadRequest.plain)
      fun _ ↦ .ok _

theorem beforeWrite_plain (r : Row) : Raises PushError.Plain (beforeWrite d r) := by
  have hscale : ∀ v, Raises PushError.Plain (validateScale v) := by
    intro v
    unfold validateScale
    split
    · split
      · exact .ok _
      · exact .error trivial
    · exact .error trivial
  unfold beforeWrite
  refine .bind ?_ fun r ↦ ?_
  · unfold computeScore
    split
    · exact .bind (hscale _) fun _ ↦ .bind (hscale _) fun _ ↦ .ok _
    · exact .ok _
  · unfold assignChangeSequence
    split
    · exact .error trivial
    · split
      · exact .error trivial
      · exact .ok _

theorem flush_plain (now : Time) (write : Option Write) :
    Raises PushError.Plain (flush d now write) := by
  cases write with
  | none => exact .ok _
  | some w =>
    refine .map _ ?_
    split
    · exact .bind (beforeWrite_plain d _) fun _ ↦ .bind (.require _ trivial) fun _ ↦
        .bind (.require _ trivial) fun _ ↦ .ok _
    · exact .bind (beforeWrite_plain d _) fun _ ↦ .bind (.require _ trivial) fun _ ↦
        .bind (.require _ trivial) fun _ ↦ .ok _

end Plain

def PushError.Unclaimed : PushError → Prop
  | .conflict reason .. => reason ∈ ["type_mismatch", "base_version_required", "version_mismatch"]
  | .http .. => True
  | _ => False

theorem claimExisting_unclaimed (d : Data) (userId projectId : Uuid) (r : Row) (entity : Entity)
    (entityId : Uuid) (bv : Option ℤ) (now : Time) : Raises PushError.Unclaimed
      (claimExisting d r entity entityId projectId userId bv now) := by
  unfold claimExisting
  refine .bind (.require _ List.mem_cons_self) fun _ ↦ .bind (.require _ trivial) fun _ ↦
    .bind ?_ fun expected ↦ ?_
  · unfold checkBaseVersion
    simp only
    split
    · exact .error (List.mem_cons_of_mem _ List.mem_cons_self)
    · split
      · exact .error (List.mem_cons_of_mem _ List.mem_cons_self)
      · split
        · exact .error (List.mem_cons_of_mem _ (List.mem_cons_of_mem _ List.mem_cons_self))
        · exact .ok _
  · unfold claimBaseVersion
    split
    · exact .ok _
    · exact .error (List.mem_cons_of_mem _ (List.mem_cons_of_mem _ List.mem_cons_self))

theorem applyChange_raises {conv : Conv} {d : Data} {userId projectId : Uuid}
    {change : SyncChange} {now : Time} {P : PushError → Prop} (plain : ∀ e, e.Plain → P e)
    (claim : ∀ r entityId, fetchObj d change.entity entityId projectId = some r →
      Raises P (claimExisting d r change.entity entityId projectId userId change.baseVersion
        now)) : Raises P (applyChange conv d userId projectId change now) := by
  have hrequest : ∀ e, PushError.BadRequest e → P e := fun e he ↦ plain e he.plain
  unfold applyChange
  refine .bind ?_ fun _ ↦ .bind ((flush_plain _ _ _).mono plain) fun _ ↦ .ok _
  unfold applyOp
  split
  · refine .bind ((parseUuid_badRequest conv _ _).mono hrequest) fun entityId ↦ ?_
    simp only
    split
    · exact .bind ((createNew_plain conv d _ _ _ _ _ _).mono plain) fun _ ↦ .ok _
    · rename_i r hr
      exact .bind (claim r entityId hr) fun claimed ↦
        .bind ((updateExisting_plain conv claimed _ _ _ _ _).mono plain) fun _ ↦ .ok _
  · refine .bind ((parseUuid_badRequest conv _ _).mono hrequest) fun entityId ↦ ?_
    simp only
    split
    · exact .ok _
    · rename_i r hr
      exact .bind (claim r entityId hr) fun _ ↦ .ok _

end RiskApp.Server

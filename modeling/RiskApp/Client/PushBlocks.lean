import Mathlib.Algebra.GroupWithZero.Nat
import RiskApp.Client.Push

namespace RiskApp.Client

open Lib Lib.Result Server

section Fits

variable {Digest : Type} [DecidableEq Digest]

/-- The server has answered this change with an error, or refused a request that held no other. -/
def Rejected (answer : Except HttpFailure (Db Digest × List ChangeResult)) (batch : Outbox)
    (changeId : Uuid) : Prop :=
  match answer with
  | .ok (_, results) => ∃ r ∈ results, r.changeId = changeId ∧ r.status = .error
  | .error _ => batch.map Entry.changeId = [changeId]

/-- What a push of the batch owes to its changes: if the server accepts each of them on its own
none is blocked, and only a rejected one gets blocked for its content. -/
def OnlyRejectedBlocked (server : PushServer Digest) (db : Db Digest) (user : Option Uuid)
    (projectId : Uuid) (clock : Uuid → Time) (batch : Outbox) (c c' : Cache) : Prop :=
  (server.AcceptsEach user projectId db (sentChanges batch clock) →
      ∀ e ∈ c'.outbox, e.changeId ∈ batch.map Entry.changeId → e.status ≠ .blocked) ∧
    ∀ e ∈ c'.outbox, e.status = .blocked → e.failureKind = some .validation →
      (∃ e₀ ∈ c.outbox, e₀.changeId = e.changeId ∧ e₀.status = .blocked ∧
          e₀.failureKind = some .validation) ∨
        Rejected (server.syncPush db user projectId (sentChanges batch clock)) batch e.changeId

variable {server : PushServer Digest} {db : Db Digest} {user : Option Uuid} {projectId : Uuid}
  {clock : Uuid → Time} {batch : Outbox} {c c' : Cache} {now : Time}

omit [DecidableEq Digest] in
theorem Blocks.received {lost : Bool} {changeId : Uuid} {kind : FailureKind}
    {answer : Except HttpFailure (Db Digest × List ChangeResult)}
    (h : Blocks (answerOperations now projectId batch (received lost answer)) changeId kind) :
    (∃ db' results, answer = .ok (db', results) ∧ ∃ r ∈ results, r.changeId = changeId ∧
      (r.status = .conflict ∧ kind = .conflict ∨ r.status = .error)) ∨
    ∃ code, answer = .error code ∧ classifyHttpStatus code = (kind, false) ∧
      ∃ e ∈ batch, e.changeId = changeId := by
  cases lost with
  | true =>
    obtain ⟨hclass, -⟩ := blocks_failBatch h
    cases hclass
  | false =>
    cases answer with
    | error code =>
      obtain ⟨hclass, he⟩ := blocks_failBatch h
      exact Or.inr ⟨code, rfl, hclass, he⟩
    | ok result => exact Or.inl ⟨result.1, result.2, rfl, blocks_reply h⟩

theorem blocked_not_queued {e : Entry} (h : e.status = .blocked) : ¬ e.queued = true := by
  simp [Entry.queued, h]

theorem onlyRejectedBlocked_of_fits (hc : c.Sound) (limit : ℕ)
    (hbatch : c.outbox.getPendingChanges limit now = batch)
    (hfits : server.bodyBytes (batch.map Entry.change) ≤ server.maxBytes ∨ batch.length ≤ 1)
    {lost : Bool} (h : Cache.ProcessPush projectId now batch
      (received lost (server.syncPush db user projectId (sentChanges batch clock))) c c') :
    OnlyRejectedBlocked server db user projectId clock batch c c' := by
  have hbody : (sentChanges batch clock).map Prod.fst = batch.map Entry.change := by
    rw [sentChanges, List.map_map]
    rfl
  have hlen : (sentChanges batch clock).length ≤ maxPushChanges := by
    rw [sentChanges, List.length_map, ← hbatch]
    exact c.outbox.getPendingChanges_length limit now
  have heach := h.eachFrom hc
  refine ⟨fun haccepts e he hid hblocked ↦ ?_, fun e he hblocked hkind ↦ ?_⟩
  · obtain ⟨e', he', hid'⟩ := List.mem_map.mp hid
    rcases heach e he with ⟨e₀, he₀, ha⟩ | hq | ⟨kind, -, hblocks⟩
    · obtain ⟨hmem, hready⟩ := Device.mem_getPendingChanges (hbatch ▸ he')
      obtain rfl := hc.distinct.eq_of_id hmem he₀ (hid'.trans ha.changeId)
      exact blocked_not_queued (ha.status ▸ hblocked) (Device.queued_of_ready hready)
    · exact blocked_not_queued hblocked hq
    · have hne : sentChanges batch clock ≠ [] := by
        rw [sentChanges, ne_eq, List.map_eq_nil_iff]
        exact List.ne_nil_of_mem he'
      have hids : ((sentChanges batch clock).map fun c ↦ c.1.changeId).Nodup := by
        rw [sentChanges, List.map_map, ← hbatch]
        exact (hc.distinct.getPendingChanges limit now).ids
      have hwhole : server.bodyBytes ((sentChanges batch clock).map Prod.fst) ≤
          server.maxBytes := by
        rcases hfits with hfits | hone
        · rw [hbody]
          exact hfits
        · have hsingle : ∃ x, sentChanges batch clock = [x] := by
            rw [← List.length_eq_one_iff, sentChanges, List.length_map]
            have := List.length_pos_of_mem he'
            omega
          obtain ⟨x, hx⟩ := hsingle
          rw [hx] at haccepts ⊢
          obtain ⟨db', r, hpush, -, -⟩ := haccepts
          exact (PushServer.syncPush_ok hpush).1
      obtain ⟨db', results, hok, hall⟩ := haccepts.syncPush hne hids hwhole hlen
      rw [hok] at hblocks
      rcases hblocks.received with ⟨db'', results', heq, r, hr, -, hcase⟩ | ⟨code, heq, -⟩
      · cases heq
        rw [hall r hr] at hcase
        rcases hcase with ⟨hcase, -⟩ | hcase <;> cases hcase
      · cases heq
  · rcases heach e he with ⟨e₀, he₀, ha⟩ | hq | ⟨kind, hk, hblocks⟩
    · exact Or.inl ⟨e₀, he₀, ha.changeId.symm, ha.status ▸ hblocked, ha.failureKind ▸ hkind⟩
    · exact absurd hq (blocked_not_queued hblocked)
    · obtain rfl : kind = .validation := Option.some.inj (hk.symm.trans hkind)
      right
      rcases hblocks.received with
        ⟨db', results, heq, r, hr, hid, hcase⟩ | ⟨code, heq, hclass, e', he', hid⟩
      · rw [heq]
        rcases hcase with ⟨-, hcase⟩ | hstatus
        · cases hcase
        · exact ⟨r, hr, hid, hstatus⟩
      · rw [heq]
        have hlength : batch.length ≤ 1 := by
          refine hfits.resolve_left fun hfits ↦ ?_
          have hcode := PushServer.syncPush_error (hbody ▸ hfits) hlen heq
          simp only [List.mem_cons, List.not_mem_nil, or_false] at hcode
          rcases hcode with rfl | rfl | rfl <;> cases hclass
        obtain ⟨x, hx⟩ := List.length_eq_one_iff.mp
          (show batch.length = 1 by have := List.length_pos_of_mem he'; omega)
        subst hx
        obtain rfl := List.mem_singleton.mp he'
        exact congrArg (fun id ↦ [id]) hid

theorem perform_block (now : Time) (err : Failure) (ids : List Uuid) (c : Cache) :
    Cache.perform projectId (ids.map fun id ↦ .blockId id err now) [] c =
      c.setOutbox fun o ↦ ids.foldl (fun o id ↦ o.blockOutboxId id err now) o := by
  induction ids generalizing c with
  | nil => rfl
  | cons id ids ih =>
    have heval : (Cache.changeOutbox (·.blockOutboxId id err now)).eval c =
        some ((), c.setOutbox (·.blockOutboxId id err now)) := rfl
    obtain ⟨hreturned, hafter⟩ := Work.writeTransaction_completed heval
    rw [List.map_cons, Cache.perform]
    change (if (Cache.changeOutbox _).writeTransaction.returned [] c = true then
      Cache.perform projectId _ [] ((Cache.changeOutbox _).writeTransaction.after [] c) else _) = _
    rw [if_pos hreturned, hafter]
    exact ih _

theorem mem_foldl_block {err : Failure} (herr : err.failureKind ≠ .transient) {ids : List Uuid}
    {o : Outbox} {e : Entry} (he : e ∈ o)
    (h : e.changeId ∈ ids ∨ e.status = .blocked ∧ e.failureKind = some err.failureKind) :
    ∃ e' ∈ ids.foldl (fun o id ↦ o.blockOutboxId id err now) o, e'.changeId = e.changeId ∧
      e'.status = .blocked ∧ e'.failureKind = some err.failureKind := by
  induction ids generalizing o e with
  | nil => exact ⟨e, he, rfl, h.resolve_left List.not_mem_nil⟩
  | cons id ids ih =>
    have hmem : (if e.changeId = id && err.failureKind ≠ .transient then e.parked err now else e) ∈
        o.blockOutboxId id err now :=
      List.mem_map_of_mem (f := fun e : Entry ↦
        if e.changeId = id && err.failureKind ≠ .transient then e.parked err now else e) he
    by_cases hid : e.changeId = id
    · rw [if_pos (by simp [hid, herr])] at hmem
      exact @ih (o.blockOutboxId id err now) (e.parked err now) hmem (Or.inr ⟨rfl, rfl⟩)
    · rw [if_neg (by simp [hid])] at hmem
      exact @ih (o.blockOutboxId id err now) e hmem
        (h.imp_left fun h ↦ (List.mem_cons.mp h).resolve_left hid)

theorem not_onlyRejectedBlocked (hc : c.Sound) (limit : ℕ)
    (hbatch : c.outbox.getPendingChanges limit now = batch)
    (hlarge : server.maxBytes < server.bodyBytes (batch.map Entry.change))
      (hmany : 1 < batch.length) :
    ∃ c', Cache.ProcessPush projectId now batch
        (received false (server.syncPush db user projectId (sentChanges batch clock))) c c' ∧
      ¬ OnlyRejectedBlocked server db user projectId clock batch c c' := by
  have hanswer : server.syncPush db user projectId (sentChanges batch clock) = .error 413 := by
    unfold PushServer.syncPush
    rw [sentChanges, List.map_map]
    exact if_pos hlarge
  obtain ⟨e, he⟩ := List.exists_mem_of_length_pos (Nat.lt_of_succ_lt hmany)
  obtain ⟨hmem, hready⟩ := Device.mem_getPendingChanges (hbatch ▸ he)
  set c₁ := c.setOutbox (·.markOutboxIdsAttempted (batch.map Entry.changeId) now)
  refine ⟨_, ⟨c₁, c₁, [], rfl, .refl, rfl⟩, fun h ↦ ?_⟩
  have hops : answerOperations now projectId batch (received false
      (server.syncPush db user projectId (sentChanges batch clock))) =
      (batch.map Entry.changeId).map fun id ↦ .blockId id ⟨.validation, {}⟩ now := by
    rw [hanswer, List.map_map]
    rfl
  rw [hops, perform_block] at h
  have hmarked : e.attempted now ∈ c₁.outbox := by
    refine List.mem_map.mpr ⟨e, hmem, if_pos ?_⟩
    exact decide_eq_true (List.mem_map_of_mem he)
  have hsent : e.changeId ∈ batch.map Entry.changeId := List.mem_map_of_mem he
  obtain ⟨e', he', hid, hblocked, hkind⟩ := @mem_foldl_block now ⟨.validation, {}⟩ (by decide)
    (batch.map Entry.changeId) c₁.outbox (e.attempted now) hmarked (Or.inl hsent)
  rcases h.2 e' he' hblocked hkind with ⟨e₀, he₀, hid₀, hb₀, -⟩ | hrejected
  · obtain rfl := hc.distinct.eq_of_id he₀ hmem (hid₀.trans hid)
    exact blocked_not_queued hb₀ (Device.queued_of_ready hready)
  · rw [hanswer] at hrejected
    have hone := congrArg List.length (show batch.map Entry.changeId = [e'.changeId] from hrejected)
    rw [List.length_map, List.length_singleton] at hone
    omega

/-- Pushes block rejected changes alone exactly when the body of the batch fits the limit of the
server, or the batch is a single change. -/
theorem only_rejected_blocked (server : PushServer Digest) (db : Db Digest) (user : Option Uuid)
    (projectId : Uuid) (clock : Uuid → Time) {c : Cache} (hc : Cache.Reaches projectId {} c)
    (limit : ℕ) (now : Time) :
    let batch := c.outbox.getPendingChanges limit now
    (∀ lost c', Cache.ProcessPush projectId now batch
        (received lost (server.syncPush db user projectId (sentChanges batch clock))) c c' →
      OnlyRejectedBlocked server db user projectId clock batch c c') ↔
      server.bodyBytes (batch.map Entry.change) ≤ server.maxBytes ∨ batch.length ≤ 1 := by
  intro batch
  have hsound := hc.sound Cache.sound_empty
  constructor
  · intro h
    by_contra hno
    rw [not_or, not_le, not_le] at hno
    obtain ⟨c', hpush, hnot⟩ := @not_onlyRejectedBlocked Digest _ server db user projectId
        clock batch
      c now hsound limit rfl hno.1 hno.2
    exact hnot (h false c' hpush)
  · intro hfits lost c' hpush
    exact onlyRejectedBlocked_of_fits hsound limit rfl hfits hpush

end Fits

section Sample

def longTicket (s : String) : TicketForm :=
  ⟨.str "Crash", .str s, .str "bug", .str "high", .str "open", .str ""⟩

def ticketFieldsOf (s : String) (id : Uuid) : List (Attr × Val) :=
  [(.id, .uuid id), (.title, .str "Crash"), (.description, .str s), (.category, .str "bug"),
    (.priority, .str "high"), (.status, .str "open"), (.reporterEmail, .str "")]

theorem parse_longTicket (conv : Conv) {s : String} (hs : s.length ≤ 10000) (id : Uuid) :
    parseRecord conv .helpdeskTicket ((longTicket s).record id) = .ok
    ⟨ticketFieldsOf s id, none⟩ := by
  have hfields : parseFields conv ((longTicket s).record id) (schema .helpdeskTicket) =
      some (ticketFieldsOf s id) := by
    have hdesc : (boundedText).parse conv (.str s) = some (.str s) := by
      simp [boundedText, FieldType.parse, hs]
    have hsplit : parseFields conv ((longTicket s).record id) (schema .helpdeskTicket) =
        (boundedText.parse conv (.str s)).bind fun w ↦
          some [(.id, .uuid id), (.title, .str "Crash"), (.description, w), (.category, .str "bug"),
            (.priority, .str "high"), (.status, .str "open"), (.reporterEmail, .str "")] := by
      unfold longTicket TicketForm.record schema syncHelpDeskTicketRecord
      simp [parseFields, Dict.ofList, Dict.set, FieldType.parse, helpDeskCategories,
        helpDeskStatuses, helpDeskPriorities]
      rfl
    rw [hsplit, hdesc]
    rfl
  unfold parseRecord
  rw [hfields]
  rfl

def ticketRow (s : String) (userId projectId id : Uuid) (now : Time) : Row :=
  let common := [(Attr.updatedAt, Val.time now), (.createdAt, .time now)] ++
    [(.projectId, .uuid projectId), (.createdBy, .uuid userId)] ++ defaults .helpdeskTicket
  ((⟨.helpdeskTickets, id, 1, 0, fun _ ↦ .null⟩ : Row).setAll common).setAll (ticketFieldsOf s id)

theorem createNew_longTicket (conv : Conv) (d : Data) (userId projectId : Uuid) {s : String}
    (hs : s.length ≤ 10000) (id : Uuid) (now : Time) :
    createNew conv d userId projectId .helpdeskTicket id ((longTicket s).record id) now =
      .ok (ticketRow s userId projectId id now) := by
  unfold createNew
  rw [parse_longTicket conv hs id]
  rfl

theorem dataFits_longTicket {s : String} (hs : Char.ofNat 0 ∉ s.toList)
    (userId projectId id : Uuid) (now : Time) (n : ℕ) :
    ({ ticketRow s userId projectId id now with
      changeSequence := n }.withDefaults now).dataFits = true := by
  rw [Row.dataFits, List.all_eq_true]
  intro a ha
  by_cases hd : a = .description
  · subst hd
    change textFits none (.str s) = true
    simp [textFits, hs]
  · replace ha : a ∈ Table.columns .helpdeskTickets := ha
    simp only [Table.columns, List.mem_cons, List.not_mem_nil, or_false] at ha
    rcases ha with rfl | rfl | rfl | rfl | rfl | rfl | rfl | rfl | rfl | rfl | rfl | rfl | rfl
    all_goals first | exact absurd rfl hd | rfl

def ticketChange (s : String) (n : ℕ) : SyncChange :=
  ⟨n + 1, .helpdeskTicket, .upsert, none, (longTicket s).record (100 + n)⟩

structure Ready (ns : List ℕ) (db : Db Val) : Prop where
  role : db.data.getMemberRole 1 10 = some .manager
  user : 10 ∈ db.data.users
  state : (db.data.lastSequence 1).isSome
  free : ∀ n ∈ ns, db.data.row (.helpdeskTickets, 100 + n) = none
  unmet : ∀ n ∈ ns, Table.find SyncReceipt.changeId (n + 1) db.receipts = none

theorem flush_ticket {s : String} (hs : Char.ofNat 0 ∉ s.toList) {d : Data} {last id : ℕ}
    (hlast : d.lastSequence 1 = some last) (huser : 10 ∈ d.users)
    (hrow : d.row (.helpdeskTickets, id) = none) (now : Time) :
    flushInsert d (ticketRow s 10 1 id now) now = .ok { d with
      rows := d.rows ++ [{ ticketRow s 10 1 id now with changeSequence :=
      last + 1 }.withDefaults now]
      lastSequence := Function.update d.lastSequence 1 (some (last + 1)) } := by
  have hwrite : beforeWrite d (ticketRow s 10 1 id now) =
      .ok ({ d with lastSequence := Function.update d.lastSequence 1 (some (last + 1)) },
        { ticketRow s 10 1 id now with changeSequence := last + 1 }) := by
    have hproject : d.projectOf (ticketRow s 10 1 id now) = some 1 := rfl
    have hnaive : (ticketRow s 10 1 id now).naive = ticketRow s 10 1 id now := by
      refine Row.naive_eq_self fun a ha ↦ ?_
      simp only [datetimeColumns, List.mem_cons, List.not_mem_nil, or_false] at ha
      rcases ha with rfl | rfl | rfl | rfl | rfl | rfl <;> rfl
    change assignChangeSequence d (ticketRow s 10 1 id now).naive = _
    unfold assignChangeSequence
    simp only [hnaive, hproject, hlast]
  unfold flushInsert
  rw [hwrite]
  set r := { ticketRow s 10 1 id now with changeSequence := last + 1 }.withDefaults now
  have hfits : r.dataFits = true := dataFits_longTicket hs 10 1 id now (last + 1)
  have hadmits : ({ d with
      lastSequence := Function.update d.lastSequence 1 (some (last + 1)) } : Data).admits
      r = true := by
    unfold Data.admits
    have hrefs : refersTo d.users (.uuid 10) = true := decide_eq_true huser
    have hothers : d.rows.all (fun s ↦ s.key = r.key || !r.collides s) = true := by
      rw [List.all_eq_true]
      intro s _
      have hfree : r.collides s = false := by
        unfold Row.collides
        exact Bool.and_false _
      rw [hfree, Bool.not_false, Bool.or_true]
    simp only [Bool.and_eq_true]
    refine ⟨⟨⟨⟨rfl, ?_⟩, rfl⟩, rfl⟩, hothers⟩
    change (true && (refersTo d.users (.uuid 10) && (true && true))) = true
    rw [hrefs]
    rfl
  change (require r.dataFits PushError.unexpected >>= _) = _
  rw [hfits]
  change (require (_ && (d.row (.helpdeskTickets, id)).isNone) PushError.integrity >>= _) = _
  rw [hadmits, hrow]
  rfl

def ticketAudit (s : String) (n : ℕ) (now : Time) : AuditLog :=
  ⟨now, 10, 1, n + 1, .helpdeskTicket, 100 + n, .upsert, none,
    modelToDict (ticketRow s 10 1 (100 + n) now)⟩

def ticketData (d : Data) (s : String) (n last : ℕ) (now : Time) : Data :=
  { d with
    rows := d.rows ++
      [{ ticketRow s 10 1 (100 + n) now with changeSequence := last + 1 }.withDefaults now]
    audit := d.audit ++ [ticketAudit s n now]
    lastSequence := Function.update d.lastSequence 1 (some (last + 1)) }

theorem applyChange_ticket {conv : Conv} {s : String} (hlen : s.length ≤ 10000)
    (hs : Char.ofNat 0 ∉ s.toList) {d : Data} {n last : ℕ} (hlast : d.lastSequence 1 = some last)
    (huser : 10 ∈ d.users) (hrow : d.row (.helpdeskTickets, 100 + n) = none) (now : Time) :
    applyChange conv d 10 1 (ticketChange s n) now =
      .ok (ticketData d s n last now, 100 + n) := by
  have hfetch : fetchObj d (ticketChange s n).entity (100 + n) 1 = none := by
    change (d.row (.helpdeskTickets, 100 + n)).filter _ = none
    rw [hrow]
    rfl
  have hid : parseUuid conv "record.id" ((ticketChange s n).record.get .id) = .ok (100 + n) := rfl
  have hupsert : applyUpsert conv d 10 1 (ticketChange s n) now =
      .ok (d, 100 + n, some ⟨ticketRow s 10 1 (100 + n) now, true, ticketAudit s n now⟩) := by
    unfold applyUpsert
    rw [hid]
    dsimp only [bind, Except.bind]
    rw [hfetch]
    dsimp only
    rw [show createNew conv d 10 1 (ticketChange s n).entity (100 + n) (ticketChange s n).record
      now = _ from createNew_longTicket conv d 10 1 hlen (100 + n) now]
    rfl
  have happly : applyChange conv d 10 1 (ticketChange s n) now =
      (applyUpsert conv d 10 1 (ticketChange s n) now).bind fun x ↦
        (flush x.1 now x.2.2).bind fun d' ↦ .ok (d', x.2.1) := rfl
  have hflush : flush d now (some ⟨ticketRow s 10 1 (100 + n) now, true, ticketAudit s n now⟩) =
      (flushInsert d (ticketRow s 10 1 (100 + n) now) now).map fun d ↦
        { d with audit := d.audit ++ [ticketAudit s n now] } := rfl
  rw [happly, hupsert]
  dsimp only [Except.bind]
  rw [hflush, flush_ticket hs hlast huser hrow now]
  rfl

theorem push_ticket {conv : Conv} {sha : Payload → Val} {s : String} (hlen : s.length ≤ 10000)
    (hs : Char.ofNat 0 ∉ s.toList) {db : Db Val} {n : ℕ} {ns : List ℕ} (hn : n ∉ ns)
    (h : Ready (n :: ns) db) (now : Time) :
    ∃ db' r, pushChanges conv sha db 10 1 [(ticketChange s n, now)] = .ok (db', [r]) ∧
      r.status = .accepted ∧ Ready ns db' := by
  obtain ⟨last, hlast⟩ := Option.isSome_iff_exists.mp h.state
  have hrow := h.free n List.mem_cons_self
  have happly := @applyChange_ticket conv s hlen hs db.data n last hlast h.user hrow now
  obtain ⟨o, ho, hstatus, hdata⟩ : ∃ o, processNewPushChange conv db.data 10 1 .manager
      (ticketChange s n) now = o ∧ o.status = .accepted ∧
        o.data = ticketData db.data s n last now := by
    unfold processNewPushChange
    rw [happly]
    exact ⟨_, rfl, rfl, rfl⟩
  have hseen : ¬ (PushContext.start db 10 1 .manager
      [(ticketChange s n, now)]).seen (n + 1) = true := by
    have hload : loadExistingReceipts db [(ticketChange s n, now)] (n + 1) = none := by
      rw [loadExistingReceipts_of_mem (by simp [ticketChange])]
      exact h.unmet n List.mem_cons_self
    simp [PushContext.seen, PushContext.start, hload]
  have hpush : pushChanges conv sha db 10 1 [(ticketChange s n, now)] =
      .ok (⟨o.data, db.receipts ++ o.receipts sha 10 1 (ticketChange s n) now⟩,
        [o.result (ticketChange s n)]) := by
    have hopen : openPush db 10 1 [(ticketChange s n, now)] =
        .ok (.start db 10 1 .manager [(ticketChange s n, now)]) := by
      unfold openPush
      rw [if_neg (by simp [hlast]), h.role]
    unfold pushChanges
    rw [hopen]
    change Except.ok (((PushContext.start db 10 1 .manager [(ticketChange s n, now)]).step conv sha
      (ticketChange s n, now)).db, _) = _
    rw [PushContext.step_of_new conv sha hseen, ← ho]
    change Except.ok (_, ((PushContext.start db 10 1 .manager [(ticketChange s n, now)]).step
      conv sha
      (ticketChange s n, now)).results) = _
    rw [PushContext.step_of_new conv sha hseen]
    rfl
  refine ⟨_, _, hpush, hstatus, ⟨?_, ?_, ?_, fun m hm ↦ ?_, fun m hm ↦ ?_⟩⟩
  · rw [hdata]
    exact h.role
  · rw [hdata]
    exact h.user
  · rw [hdata]
    change (Function.update db.data.lastSequence 1 (some (last + 1)) 1).isSome = true
    rw [Function.update_self]
    rfl
  · have hne : m ≠ n := fun he ↦ hn (he ▸ hm)
    have hold : Table.find Row.key (.helpdeskTickets, 100 + m) db.data.rows = none :=
      h.free m (List.mem_cons_of_mem _ hm)
    rw [hdata]
    refine (Table.find_append Row.key _ _ _).trans ?_
    rw [hold, Option.none_or, Table.find_singleton]
    refine if_neg fun he ↦ hne ?_
    have hid : 100 + n = 100 + m := congrArg Prod.snd he
    omega
  · have hne : m ≠ n := fun he ↦ hn (he ▸ hm)
    have hold := h.unmet m (List.mem_cons_of_mem _ hm)
    change Table.find SyncReceipt.changeId (m + 1) (db.receipts ++ _) = none
    rw [Table.find_append, hold, Option.none_or]
    unfold Outcome.receipts
    split
    · rw [Table.find_singleton]
      refine if_neg fun he ↦ hne ?_
      have hid : n + 1 = m + 1 := he
      omega
    · rfl

def ticketEntry (s : String) (n : ℕ) : Entry :=
  (LocalStore.draft (.helpdeskTicket, 100 + n) .upsert none ((longTicket s).record (100 + n))
    ⟨n + 1, n⟩).entry none

def ticketCached (s : String) (n : ℕ) : CachedRow :=
  Cache.userRow (.helpdeskTicket, 100 + n) 0 (savedTicket (longTicket s) n)

theorem createTicket_eval {s : String} {n : ℕ} {c : Cache}
    (hentry : ∀ e ∈ c.outbox, e.key ≠ (.helpdeskTicket, 100 + n)) :
    (Cache.createTicket (.helpdeskTicket, 100 + n) (longTicket s) ⟨n + 1, n⟩).eval c =
      some ((), { c.saveRow (ticketCached s n) with outbox := c.outbox ++ [ticketEntry s n] }) := by
  have hfind : (c.saveRow (ticketCached s n)).row (.helpdeskTicket, 100 + n) =
      some (ticketCached s n) :=
    (Table.find_upsert CachedRow.key _ _ _).trans (if_pos rfl)
  have holdest : (c.saveRow (ticketCached s n)).outbox.oldestOpenEntry (.helpdeskTicket, 100 + n) =
      none := by
    have hnone : c.outbox.ofKey (.helpdeskTicket, 100 + n) = [] := by
      refine List.filter_eq_nil_iff.mpr fun e he ↦ ?_
      simpa using hentry e he
    change (Outbox.oldestFirst (c.outbox.ofKey _)).head? = none
    rw [hnone]
    rfl
  have hdelete : c.outbox.deleteOpenEntries (.helpdeskTicket, 100 + n) = c.outbox :=
    List.filter_eq_self.mpr fun e he ↦ by simpa using hentry e he
  have hstart : (Cache.createTicket (.helpdeskTicket, 100 + n) (longTicket s) ⟨n + 1, n⟩).eval c =
      (Work.ofOption ((c.saveRow (ticketCached s n)).row (.helpdeskTicket, 100 + n)) >>=
      fun ticket ↦
        Cache.queueUpsert (.helpdeskTicket, 100 + n) ((ticketOf ticket.columns).record (100 + n))
          ⟨n + 1, n⟩).eval (c.saveRow (ticketCached s n)) := rfl
  rw [hstart, hfind, Work.eval_bind, Work.eval_ofOption, Option.map_some, Option.bind_some]
  have hqueue : ∀ record, (Cache.queueUpsert (.helpdeskTicket, 100 + n) record ⟨n + 1, n⟩).eval
      (c.saveRow (ticketCached s n)) = some ((), { c.saveRow (ticketCached s n) with
        outbox := c.outbox ++ [(LocalStore.draft (.helpdeskTicket, 100 + n) .upsert none record
          ⟨n + 1, n⟩).entry none] }) := by
    intro record
    unfold Cache.queueUpsert Cache.getVersion Cache.replaceOutboxEntry Cache.changeOutbox
    simp only [Work.eval_writeTransaction, Work.eval_bind, Work.eval_select, Work.eval_ofOption,
      Option.bind_some, hfind, Option.map_some]
    have hkey : ∀ b, (LocalStore.draft (.helpdeskTicket, 100 + n) .upsert b record ⟨n + 1, n⟩).key =
        (.helpdeskTicket, 100 + n) := fun _ ↦ rfl
    simp only [Bool.false_eq_true, if_false, Work.eval_bind, Work.eval_select,
      Option.bind_some, hkey,
      holdest]
    change some ((), ({ c.saveRow (ticketCached s n) with
      outbox := c.outbox.deleteOpenEntries (.helpdeskTicket, 100 + n) ++ _ } : Cache)) = _
    rw [hdelete]
    rfl
  have hrecord : (ticketOf (ticketCached s n).columns).record (100 + n) =
      (longTicket s).record (100 + n) := by
    have hdescription : textOr (.str s) "" = .str s := by
      by_cases hs : s = "" <;> simp [textOr, Val.orElse, Val.truthy, textOf, hs]
    change TicketForm.record ⟨_, textOr (.str s) "", _, _, _, _⟩ _ = _
    rw [hdescription]
    rfl
  dsimp only
  rw [hrecord]
  exact hqueue _

def filed (s : String) : ℕ → Cache
  | 0 => {}
  | n + 1 => ((Operation.command (.createTicket (100 + n) (longTicket s)) ⟨n + 1, n⟩).work
      1).after []
      (filed s n)

theorem filed_outbox (s : String) (n : ℕ) :
    (filed s n).outbox = (List.range n).map (ticketEntry s) := by
  induction n with
  | zero => rfl
  | succ n ih =>
    have hentry : ∀ e ∈ (filed s n).outbox, e.key ≠ (.helpdeskTicket, 100 + n) := by
      rw [ih]
      intro e he hk
      obtain ⟨m, hm, rfl⟩ := List.mem_map.mp he
      have hid : 100 + m = 100 + n := congrArg Prod.snd hk
      have := List.mem_range.mp hm
      omega
    have hnext : filed s (n + 1) = (Cache.createTicket (.helpdeskTicket, 100 + n) (longTicket s)
        ⟨n + 1, n⟩).after [] (filed s n) := rfl
    obtain ⟨w, hw⟩ : ∃ w, Cache.createTicket (.helpdeskTicket, 100 + n) (longTicket s) ⟨n + 1, n⟩ =
      Work.writeTransaction w := ⟨_, rfl⟩
    have heval := @createTicket_eval s n _ hentry
    rw [hw, Work.eval_writeTransaction] at heval
    rw [hnext, hw, (Work.writeTransaction_completed heval).2, List.range_succ,
      List.map_append, ← ih]
    rfl

theorem filed_reached (s : String) (n : ℕ) : Cache.Reaches 1 {} (filed s n) := by
  induction n with
  | zero => exact .refl
  | succ n ih =>
    refine ih.tail ⟨_, [], fun id hid e he ↦ ?_, rfl⟩
    obtain rfl : n + 1 = id := Option.some.inj hid
    rw [filed_outbox] at he
    obtain ⟨m, hm, rfl⟩ := List.mem_map.mp he
    have := List.mem_range.mp hm
    change m + 1 ≠ n + 1
    omega

theorem filed_batch (s : String) {n : ℕ} (hn : n ≤ 100) :
    (filed s n).outbox.getPendingChanges 100 1000 = (List.range n).map (ticketEntry s) := by
  unfold Outbox.getPendingChanges
  rw [filed_outbox]
  have hready : ((List.range n).map (ticketEntry s)).filter (Outbox.ready 1000) =
      (List.range n).map (ticketEntry s) := by
    refine List.filter_eq_self.mpr fun e he ↦ ?_
    obtain ⟨m, -, rfl⟩ := List.mem_map.mp he
    rfl
  rw [hready]
  have hsorted : Outbox.oldestFirst ((List.range n).map (ticketEntry s)) =
      (List.range n).map (ticketEntry s) := by
    refine List.Pairwise.insertionSort_eq ?_
    rw [List.pairwise_map]
    exact List.pairwise_lt_range.imp fun h ↦ le_of_lt h
  rw [hsorted, List.take_of_length_le]
  rw [List.length_map, List.length_range]
  omega


def charBytes (c : Char) : ℕ :=
  if c.toNat ∈ [8, 9, 10, 12, 13, 34, 92] then 2
  else if 32 ≤ c.toNat ∧ c.toNat ≤ 126 then 1
  else if c.toNat < 65536 then 6
  else 12

def jsonBytes (s : String) : ℕ := (s.toList.map charBytes).sum

def textBytes (changes : List SyncChange) : ℕ :=
  (changes.map fun c ↦ ((schema c.entity).map fun f ↦ match c.record f.1 with
    | some (.str s) => jsonBytes s
    | _ => 0).sum).sum

theorem textBytes_ticket (s : String) (n : ℕ) :
    textBytes [ticketChange s n] = jsonBytes s + 16 := by
  have hsum : textBytes [ticketChange s n] = (0 + (jsonBytes "Crash" + (jsonBytes s +
      (jsonBytes "bug" + (jsonBytes "high" + (jsonBytes "open" + (jsonBytes "" + (0 + 0)))))))) +
      0 :=
    rfl
  have hfixed : jsonBytes "Crash" = 5 ∧ jsonBytes "bug" = 3 ∧ jsonBytes "high" = 4 ∧
      jsonBytes "open" = 4 ∧ jsonBytes "" = 0 := by decide
  omega

theorem textBytes_tickets (s : String) (ns : List ℕ) :
    textBytes (ns.map (ticketChange s)) = ns.length * (jsonBytes s + 16) := by
  induction ns with
  | nil => simp [textBytes]
  | cons n ns ih =>
    have hcons : textBytes ((n :: ns).map (ticketChange s)) =
        textBytes [ticketChange s n] + textBytes (ns.map (ticketChange s)) := by
      simp [textBytes]
    rw [hcons, ih, textBytes_ticket, List.length_cons, Nat.succ_mul, Nat.add_comm]

def longText (length : ℕ) : String := String.ofList (List.replicate length (Char.ofNat 128512))

theorem length_longText (length : ℕ) : (longText length).length = length := by
  rw [longText, String.length_ofList, List.length_replicate]

theorem toList_longText (length : ℕ) :
    (longText length).toList = List.replicate length (Char.ofNat 128512) := by
  rw [longText, String.toList_ofList]

theorem jsonBytes_longText (length : ℕ) : jsonBytes (longText length) = 12 * length := by
  have hchar : charBytes (Char.ofNat 128512) = 12 := by decide
  rw [jsonBytes, toList_longText, List.map_replicate, hchar]
  induction length with
  | zero => rfl
  | succ length ih =>
    rw [List.replicate_succ, List.sum_cons, ih]
    omega

theorem accepts_tickets {server : PushServer Val} {s : String} (hlen : s.length ≤ 10000)
    (hs : Char.ofNat 0 ∉ s.toList)
    (hfits : ∀ n, server.bodyBytes [ticketChange s n] ≤ server.maxBytes) (clock : ℕ → Time)
    {ns : List ℕ} (hns : ns.Nodup) {db : Db Val} (h : Ready ns db) :
    server.AcceptsEach (some 10) 1 db (ns.map fun n ↦ (ticketChange s n, clock n)) := by
  induction ns generalizing db with
  | nil => trivial
  | cons n ns ih =>
    obtain ⟨hn, hns⟩ := List.nodup_cons.mp hns
    obtain ⟨db', r, hpush, hr, hready⟩ :=
      @push_ticket server.conv server.sha s hlen hs db n ns hn h (clock n)
    refine ⟨db', r, ?_, hr, ih hns hready⟩
    have hrole : requireMinRole db.data 1 10 .member = .ok () := by
      rw [requireMinRole, h.role]
      rfl
    exact (@PushServer.syncPush_of_ok Val _ server db 1 [(ticketChange s n, clock n)] 10 (hfits n)
      (show 1 ≤ maxPushChanges by decide) hrole).trans hpush

/-- The server would accept each of the tickets, but the push blocks them all. -/
theorem tickets_blocked {server : PushServer Val} {s : String} (hlen : s.length ≤ 10000)
    (hnul : Char.ofNat 0 ∉ s.toList)
    (hone : ∀ n, server.bodyBytes [ticketChange s n] ≤ server.maxBytes)
    (hall : server.maxBytes < server.bodyBytes ((List.range 18).map (ticketChange s))) :
    let batch := (filed s 18).outbox.getPendingChanges 100 1000
    server.AcceptsEach (some 10) 1 sampleDb (sentChanges batch id) ∧
      ¬ ∀ lost c', Cache.ProcessPush 1 1000 batch
        (received lost (server.syncPush sampleDb (some 10) 1 (sentChanges batch id)))
        (filed s 18) c' →
        OnlyRejectedBlocked server sampleDb (some 10) 1 id batch (filed s 18) c' := by
  intro batch
  have hbatch : batch = (List.range 18).map (ticketEntry s) := filed_batch s (by decide)
  constructor
  · have hready : Ready (List.range 18) sampleDb :=
      ⟨by decide, by decide, by decide, fun n _ ↦ rfl, fun n _ ↦ rfl⟩
    rw [hbatch, sentChanges, List.map_map]
    exact accepts_tickets hlen hnul hone (fun n ↦ n + 1) List.nodup_range hready
  · intro hpushes
    have hlarge : server.maxBytes < server.bodyBytes (batch.map Entry.change) := by
      rw [hbatch, List.map_map]
      exact hall
    have hmany : 1 < batch.length := by
      rw [hbatch, List.length_map, List.length_range]
      decide
    obtain ⟨c', hpush, hnot⟩ := @not_onlyRejectedBlocked Val _ server sampleDb (some 10) 1 id batch
      (filed s 18) 1000 ((filed_reached s 18).sound Cache.sound_empty) 100 rfl hlarge hmany
    exact hnot (hpushes false c' hpush)

/-- Eighteen tickets, each with a description of ten thousand characters, as the schema allows: one
body with all of them exceeds the two MiB of the server, however it is encoded. -/
theorem long_texts_blocked : ¬ ∃ bodyBytes : List SyncChange → ℕ,
    (∀ changes, textBytes changes ≤ bodyBytes changes) ∧
    (∀ n, bodyBytes [ticketChange (longText 10000) n] ≤
      textBytes [ticketChange (longText 10000) n] + 4096) ∧
    let server : PushServer Val := { bodyBytes := bodyBytes, conv := .strict, sha := titleDigest }
    let c := filed (longText 10000) 18
    let batch := c.outbox.getPendingChanges 100 1000
    server.AcceptsEach (some 10) 1 sampleDb (sentChanges batch id) →
      ∀ lost c', Cache.ProcessPush 1 1000 batch
        (received lost (server.syncPush sampleDb (some 10) 1 (sentChanges batch id))) c c' →
        OnlyRejectedBlocked server sampleDb (some 10) 1 id batch c c' := by
  rintro ⟨bodyBytes, htexts, hone, hclaim⟩
  have hlen := length_longText 10000
  have hbytes := jsonBytes_longText 10000
  have hnul : Char.ofNat 0 ∉ (longText 10000).toList := by
    rw [toList_longText, List.mem_replicate]
    exact fun h ↦ absurd h.2 (by decide)
  generalize longText 10000 = s at hone hlen hbytes hnul hclaim
  revert hclaim
  refine Classical.not_imp.mpr ?_
  refine tickets_blocked hlen.le hnul (fun n ↦ ?_) ?_
  · have hsingle := hone n
    rw [textBytes_ticket] at hsingle
    change bodyBytes [ticketChange s n] ≤ 2097152
    omega
  · have hlower := htexts ((List.range 18).map (ticketChange s))
    rw [textBytes_tickets, List.length_range] at hlower
    change 2097152 < bodyBytes ((List.range 18).map (ticketChange s))
    omega

theorem only_rejected_blocked_sample :
    let server : PushServer Val := { bodyBytes := textBytes, conv := .strict, sha := titleDigest }
    let c := filed "It crashed." 2
    let batch := c.outbox.getPendingChanges 100 1000
    batch.length = 2 ∧ ∀ lost c', Cache.ProcessPush 1 1000 batch
        (received lost (server.syncPush sampleDb (some 10) 1 (sentChanges batch id))) c c' →
      OnlyRejectedBlocked server sampleDb (some 10) 1 id batch c c' := by
  intro server c batch
  have hbatch : batch = (List.range 2).map (ticketEntry "It crashed.") :=
    filed_batch "It crashed." (by decide)
  refine ⟨by rw [hbatch, List.length_map, List.length_range], ?_⟩
  refine (only_rejected_blocked server sampleDb (some 10) 1 id (filed_reached "It crashed." 2) 100
    1000).mpr (Or.inl ?_)
  change textBytes (batch.map Entry.change) ≤ 2097152
  rw [hbatch, List.map_map]
  change textBytes ((List.range 2).map (ticketChange "It crashed.")) ≤ 2097152
  rw [textBytes_tickets]
  decide

end Sample

end RiskApp.Client

import RiskApp.Server.Pull
import RiskApp.Client.OneAssessment

namespace RiskApp.Client

open Lib Server

/-- How far the push of the device has come. -/
inductive PushPhase
  | idle
  | chosen (batch : Outbox)
  | sent (batch : Outbox)
  | answered (batch : Outbox) (answer : Except HttpFailure (List ChangeResult))

def PushPhase.batch : PushPhase → Outbox
  | .idle => []
  | .chosen batch | .sent batch | .answered batch _ => batch

/-- The server and the device of a user, what the device has read of the server, the requests it
has made, and what the server has answered to changes. -/
structure World (Digest : Type) where
  server : Db Digest
  client : Cache
  push : PushPhase := .idle
  requests : List Outbox := []
  download : PullKey → List Dict := fun _ ↦ []
  answers : List ChangeResult := []

inductive Actor
  | put
  | upsert (probability impact : ℤ) (notes : Val)
  | exchange

section Moves

structure World.Fresh {Digest : Type} (w : World Digest) (id : Uuid) : Prop where
  outbox : ∀ e ∈ w.client.outbox, e.changeId ≠ id
  batch : ∀ e ∈ w.push.batch, e.changeId ≠ id
  requests : ∀ batch ∈ w.requests, ∀ e ∈ batch, e.changeId ≠ id
  receipts : ∀ receipt ∈ w.server.receipts, receipt.changeId ≠ id

variable {Digest : Type} [DecidableEq Digest] (a : Assessor) (api : PushServer Digest) (hardCap : ℕ)

/-- One step of the user or of synchronization. A request reaches the server at any time, once,
repeatedly or never, also when the device no longer waits for its answer. -/
inductive Move (w : World Digest) : Actor → World Digest → Prop
  | put {payload : Dict} {base : ℤ} {newId : Uuid} {now : Time} {data : Data}
      (run : (ItemCall.upsertMyAssessment a.itemId payload base newId).run a.userId a.projectId
        a.itemType a.scored now w.server.data = .ok data) :
      Move w .put { w with server := { w.server with data := data } }
  | upsert {probability impact : ℤ} {notes : Val} {version : ℤ} {t : LocalStore.Stamp}
      {client : Cache}
      (fresh : w.Fresh t.changeId)
      (done : ((Command.upsertMyAssessment a.ownId (a.form probability impact notes) a.userId
        version).work t).eval w.client = some ((), client)) :
      Move w (.upsert probability impact notes) { w with client := client }
  | choose (limit : ℕ) (now : Time) (idle : w.push = .idle)
      (some : w.client.outbox.getPendingChanges limit now ≠ []) :
      Move w .exchange { w with push := .chosen (w.client.outbox.getPendingChanges limit now) }
  | mark {batch : Outbox} (now : Time) (faults : List Fate) (chosen : w.push = .chosen batch)
      (returned : ((Operation.markAttempted (batch.map Entry.changeId) now).work
        a.projectId).returned faults w.client = true) :
      Move w .exchange { w with
        client := ((Operation.markAttempted (batch.map Entry.changeId) now).work a.projectId).after
          faults w.client
        push := .sent batch
        requests := batch :: w.requests }
  | abandon {batch : Outbox} (chosen : w.push = .chosen batch) :
      Move w .exchange { w with push := .idle }
  | serve {batch : Outbox} {clock : Uuid → Time} {db : Db Digest} {results : List ChangeResult}
      {push : PushPhase} (made : batch ∈ w.requests)
      (pushed : api.syncPush w.server (some a.userId) a.projectId (sentChanges batch clock) =
        .ok (db, results))
      (heard : push = w.push ∨ w.push = .sent batch ∧ push = .answered batch (.ok results)) :
      Move w .exchange { w with server := db, push := push, answers := w.answers ++ results }
  | fail {batch : Outbox} (code : HttpFailure) (sent : w.push = .sent batch) :
      Move w .exchange { w with push := .answered batch (.error code) }
  | settle {batch : Outbox} {answer : Except HttpFailure (List ChangeResult)} (now : Time)
      (faults : List (List Fate)) (answered : w.push = .answered batch answer) :
      Move w .exchange { w with
        client := Cache.perform a.projectId (answerOperations now a.projectId batch
          (answer.map fun results ↦ results.map RawResult.ofResult)) faults w.client
        push := .idle }
  | page {since : ℕ} {limit : Option ℕ} {cursors : PullKey → Option Cursor} {snapshot : Option ℕ}
      {response : PullResponse} (pulled : pullSince hardCap w.server.data a.projectId since limit
        cursors snapshot = .ok response) :
      Move w .exchange { w with
        download := fun key ↦
          w.download key ++ (response.rows key).map (pulledRecord w.server.data key.entity) }
  | apply (serverSequence : ℕ) (faults : List Fate) :
      Move w .exchange { w with
        client := (Cache.applyPull ⟨w.download, serverSequence⟩).after faults w.client
        download := fun _ ↦ [] }

def World.Reach (allowed : World Digest → Actor → Prop) : World Digest → World Digest → Prop :=
  Relation.ReflTransGen fun w w' ↦ ∃ actor, allowed w actor ∧ Move a api hardCap w actor w'

end Moves

section Property

variable {Digest : Type} (a : Assessor)

/-- The user may assess the item and has not done so, neither on the server nor on the device. -/
structure World.Start (w : World Digest) : Prop where
  admitted : a.Admitted w.server.data
  unassessed : ∀ r ∈ w.server.data.rows, a.mine r = false ∧ r.key ≠ (.assessments, a.ownId)
  keys : (w.client.rows.map CachedRow.key).Nodup
  unlisted : ∀ r ∈ w.client.rows, a.lists r = false ∧ r.key ≠ a.key
  outbox : w.client.outbox = []
  push : w.push = .idle
  requests : w.requests = []
  download : w.download = fun _ ↦ []
  answers : w.answers = []

/-- Changes of the assessment are accepted or refused for their version, and the device lists one
assessment at most. -/
structure World.OneAssessment (w : World Digest) : Prop where
  ends : ∀ r ∈ w.answers, Assessor.EndsWell r
  listed : (a.listed w.client).length ≤ 1

/-- The assessment is not created on the web while the device has one under its own id, and it is
not written on the device while the server has one under another id. -/
def World.Agreeing (w : World Digest) : Actor → Prop
  | .put => a.Holds w.client.rows → ∃ r ∈ w.server.data.rows, a.mine r = true
  | .upsert probability impact notes =>
    (∀ r ∈ w.server.data.rows, a.mine r = true → r.id = a.ownId) ∧
      Assessor.Fits probability impact notes
  | .exchange => True

end Property

section Invariant

variable {Digest : Type} (a : Assessor) (api : PushServer Digest)

/-- Whatever was requested or received under the id of the change is that change. -/
structure Known (requests : List Outbox) (receipts : List (SyncReceipt Digest)) (c : SyncChange) :
    Prop where
  requests : ∀ batch ∈ requests, ∀ e ∈ batch, e.changeId = c.changeId → e.change = c
  receipts : ∀ receipt ∈ receipts, receipt.changeId = c.changeId → a.Answered api.sha c receipt

structure Unknown (requests : List Outbox) (receipts : List (SyncReceipt Digest)) (id : Uuid) :
    Prop where
  requests : ∀ batch ∈ requests, ∀ e ∈ batch, e.changeId ≠ id
  receipts : ∀ receipt ∈ receipts, receipt.changeId ≠ id

/-- An entry beside the pushed change: it is that change, or has not been sent. -/
def Abreast (requests : List Outbox) (receipts : List (SyncReceipt Digest)) (b e : Entry) : Prop :=
  e.changeId = b.changeId ∧ e.queued = true ∧ e.change = b.change ∨
    e.changeId ≠ b.changeId ∧ (e.queued = true → Unknown requests receipts e.changeId)

inductive Phase (requests : List Outbox) (receipts : List (SyncReceipt Digest)) (outbox : Outbox) :
    PushPhase → Prop
  | idle (known : ∀ e ∈ outbox, e.queued = true → Known a api requests receipts e.change) :
      Phase requests receipts outbox .idle
  | pushing {push : PushPhase} {b : Entry} (batch : push.batch = [b])
      (change : a.Change api.conv b.change) (known : Known a api requests receipts b.change)
      (abreast : ∀ e ∈ outbox, Abreast requests receipts b e) : Phase requests receipts outbox push

structure Inv (w : World Digest) (m : Option Uuid) : Prop where
  admitted : a.Admitted w.server.data
  stored : a.Stored w.server.data m
  here : a.Local api.conv m w.client
  copies : ∀ record ∈ w.download .assessments, a.Copy m record
  requests : ∀ batch ∈ w.requests, ∃ b, batch = [b] ∧ a.Change api.conv b.change ∧
    Known a api w.requests w.server.receipts b.change
  engaged : w.requests ≠ [] ∨ w.push.batch ≠ [] → a.Holds w.client.rows
  phase : Phase a api w.requests w.server.receipts w.client.outbox w.push
  answers : ∀ r ∈ w.answers, Assessor.EndsWell r

variable {a api} {requests requests' : List Outbox} {receipts receipts' : List (SyncReceipt Digest)}
  {o o' : Outbox} {push push' : PushPhase} {b e : Entry}

theorem Unknown.known {c : SyncChange} (h : Unknown requests receipts c.changeId) :
    Known a api requests receipts c :=
  ⟨fun batch hb e he hid ↦ absurd hid (h.requests batch hb e he),
    fun receipt hr hid ↦ absurd hid (h.receipts receipt hr)⟩

theorem Abreast.known (h : Abreast requests receipts b e)
    (hb : Known a api requests receipts b.change)
    (hq : e.queued = true) : Known a api requests receipts e.change := by
  rcases h with ⟨-, -, hsame⟩ | ⟨-, hunknown⟩
  · rw [hsame]
    exact hb
  · exact (hunknown hq).known

theorem Abreast.follow (h : Abreast requests receipts b e) {e' : Entry}
    (hf : Assessor.Follows none e e') : Abreast requests receipts b e' := by
  rcases h with ⟨hid, hq, hsame⟩ | ⟨hid, hunknown⟩
  · exact Or.inl ⟨hf.changeId.trans hid, (hf.queued (by simp)).trans hq,
      (hf.same (Or.inl rfl)).trans hsame⟩
  · refine Or.inr ⟨hf.changeId ▸ hid, fun hq ↦ ?_⟩
    rw [hf.changeId]
    exact hunknown ((hf.queued (by simp)).symm.trans hq)

theorem Phase.follow (h : Phase a api requests receipts o push) (hf : Assessor.Follow none o o') :
    Phase a api requests receipts o' push := by
  cases h with
  | idle known =>
    refine .idle fun e' he' hq ↦ ?_
    obtain ⟨e, he, hfollows⟩ := hf e' he'
    rw [hfollows.same (Or.inl rfl)]
    exact known e he ((hfollows.queued (by simp)).symm.trans hq)
  | pushing batch change known abreast =>
    refine .pushing batch change known fun e' he' ↦ ?_
    obtain ⟨e, he, hfollows⟩ := hf e' he'
    exact (abreast e he).follow hfollows

theorem Phase.mono (h : Phase a api requests receipts o push)
    (hknown : ∀ c, Known a api requests receipts c → Known a api requests' receipts' c)
    (hunknown : ∀ id, Unknown requests receipts id → Unknown requests' receipts' id)
    (hpush : push' = push ∨ push'.batch = push.batch ∧ push ≠ .idle) :
    Phase a api requests' receipts' o push' := by
  cases h with
  | idle known =>
    obtain rfl := hpush.resolve_right fun hpush ↦ hpush.2 rfl
    exact .idle fun e he hq ↦ hknown _ (known e he hq)
  | pushing batch change known abreast =>
    have hbatch : push'.batch = push.batch := by
      rcases hpush with rfl | ⟨hsame, -⟩
      · rfl
      · exact hsame
    exact .pushing (hbatch.trans batch) change (hknown _ known) fun e he ↦
      (abreast e he).imp id fun h ↦ ⟨h.1, fun hq ↦ hunknown _ (h.2 hq)⟩

theorem Phase.queue (h : Phase a api requests receipts o push) {id : Uuid}
    (hunknown : Unknown requests receipts id) (hbatch : ∀ e ∈ push.batch, e.changeId ≠ id)
    (hentries : ∀ e' ∈ o', e'.changeId = id ∨ e' ∈ o ∨
      ∃ e ∈ o, e.queued = false ∧ e'.changeId = e.changeId ∧ e'.queued = false) :
    Phase a api requests receipts o' push := by
  cases h with
  | idle known =>
    refine .idle fun e' he' hq ↦ ?_
    rcases hentries e' he' with hid | hold | ⟨e, -, -, -, hblocked⟩
    · have hsame : e'.change.changeId = id := hid
      exact Unknown.known (hsame ▸ hunknown)
    · exact known e' hold hq
    · cases hblocked.symm.trans hq
  | @pushing _ b batch change known abreast =>
    refine .pushing batch change known fun e' he' ↦ ?_
    rcases hentries e' he' with hid | hold | ⟨e, he, hq, hid, hblocked⟩
    · refine Or.inr ⟨fun heq ↦ ?_, fun _ ↦ hid ▸ hunknown⟩
      exact hbatch b (by rw [batch]; simp) (heq.symm.trans hid)
    · exact abreast e' hold
    · rcases abreast e he with ⟨-, hqueued, -⟩ | ⟨hne, -⟩
      · cases hq.symm.trans hqueued
      · exact Or.inr ⟨hid ▸ hne, fun hqueued ↦ by cases hblocked.symm.trans hqueued⟩

theorem Phase.finish (known : Known a api requests receipts b.change)
    (abreast : ∀ e ∈ o, Abreast requests receipts b e)
    (hf : Assessor.Follow (some b.changeId) o o') : Phase a api requests receipts o' .idle := by
  refine .idle fun e' he' hq ↦ ?_
  obtain ⟨e, he, hfollows⟩ := hf e' he'
  rcases abreast e he with ⟨hid, -, hsame⟩ | ⟨hid, hunknown⟩
  · rw [hfollows.same (Or.inr (congrArg some hid.symm)), hsame]
    exact known
  · have hqueued : e.queued = true :=
      (hfollows.queued fun h ↦ hid (Option.some.inj h).symm).symm.trans hq
    refine Unknown.known ?_
    have hchange : e'.change.changeId = e.changeId := hfollows.changeId
    rw [hchange]
    exact hunknown hqueued

theorem Known.add {c : SyncChange} (h : Known a api requests receipts c)
    (hb : b.changeId = c.changeId → b.change = c) : Known a api ([b] :: requests) receipts c := by
  refine ⟨fun batch hbatch e he hid ↦ ?_, h.receipts⟩
  rcases List.mem_cons.mp hbatch with rfl | hbatch
  · rw [List.mem_singleton.mp he] at hid ⊢
    exact hb hid
  · exact h.requests batch hbatch e he hid

theorem Unknown.add {id : Uuid} (h : Unknown requests receipts id) (hb : b.changeId ≠ id) :
    Unknown ([b] :: requests) receipts id := by
  refine ⟨fun batch hbatch e he ↦ ?_, h.receipts⟩
  rcases List.mem_cons.mp hbatch with rfl | hbatch
  · rw [List.mem_singleton.mp he]
    exact hb
  · exact h.requests batch hbatch e he

namespace Inv

variable {w : World Digest} {m m' : Option Uuid}

theorem serve (h : Inv a api w m) {db : Db Digest} {push : PushPhase} {results : List ChangeResult}
    (hadmitted : a.Admitted db.data) (hstored : a.Stored db.data m')
    (hm : m = m' ∨ m = none ∧ (¬ a.Holds w.client.rows ∨ m' = some a.ownId))
    (hknown : ∀ c, Known a api w.requests w.server.receipts c → Known a api w.requests
      db.receipts c)
    (hunknown : ∀ id, Unknown w.requests w.server.receipts id → Unknown w.requests db.receipts id)
    (hpush : push = w.push ∨ push.batch = w.push.batch ∧ w.push ≠ .idle)
    (hends : ∀ r ∈ results, Assessor.EndsWell r) :
    Inv a api { w with server := db, push := push, answers := w.answers ++ results } m' := by
  have hbatch : push.batch = w.push.batch := by
    rcases hpush with rfl | ⟨hsame, -⟩
    · rfl
    · exact hsame
  refine ⟨hadmitted, hstored, ⟨h.here.distinct, h.here.listing.grow hm, h.here.own, h.here.changes,
    h.here.paired⟩, fun record hr ↦ (h.copies record hr).grow (hm.imp id And.left),
    fun batch hb ↦ ?_,
    fun hne ↦ h.engaged (hne.imp id fun hne ↦ hbatch ▸ hne), h.phase.mono hknown hunknown hpush,
    fun r hr ↦ ?_⟩
  · obtain ⟨b, hb, hchange, hk⟩ := h.requests batch hb
    exact ⟨b, hb, hchange, hknown _ hk⟩
  · exact (List.mem_append.mp hr).elim (h.answers r) (hends r)

theorem device (h : Inv a api w m) {client : Cache}
    (hs : a.Settled api.conv m none w.client client) {download : PullKey → List Dict}
    (hcopies : ∀ record ∈ download .assessments, a.Copy m record) :
    Inv a api { w with client := client, download := download } m :=
  ⟨h.admitted, h.stored, hs.kept, hcopies, h.requests, fun hne ↦ hs.holds (h.engaged hne),
    h.phase.follow hs.follow, h.answers⟩

theorem put (h : Inv a api w m) {payload : Dict} {base : ℤ} {newId : Uuid} {now : Time}
    {data : Data}
    (hagree : a.Holds w.client.rows → ∃ r ∈ w.server.data.rows, a.mine r = true)
    (hrun : (ItemCall.upsertMyAssessment a.itemId payload base newId).run a.userId a.projectId
      a.itemType a.scored now w.server.data = .ok data) :
    ∃ m', Inv a api { w with server := { w.server with data := data } } m' := by
  obtain ⟨hadmitted, hcase⟩ := Assessor.put h.admitted h.stored hrun
  have hserve : ∀ m', a.Stored data m' → (m = m' ∨ m = none ∧ (¬ a.Holds w.client.rows ∨
      m' = some a.ownId)) → Inv a api { w with server := { w.server with data := data } } m' := by
    intro m' hstored hm
    have hserved := @Inv.serve _ a api w m m' h { w.server with data := data } w.push [] hadmitted
      hstored hm (fun _ hk ↦ hk) (fun _ hu ↦ hu) (Or.inl rfl) fun r hr ↦ by cases hr
    rw [List.append_nil] at hserved
    exact hserved
  rcases hcase with ⟨-, hstored⟩ | ⟨rfl, hstored⟩
  · exact ⟨m, hserve m hstored (Or.inl rfl)⟩
  · refine ⟨_, hserve _ hstored (Or.inr ⟨rfl, Or.inl fun hholds ↦ ?_⟩)⟩
    obtain ⟨r, hr, hmine⟩ := hagree hholds
    cases h.stored.only r hr hmine

theorem upsert (h : Inv a api w m) {probability impact : ℤ} {notes : Val} {version : ℤ}
    {t : LocalStore.Stamp} {client : Cache}
    (hagree : ∀ r ∈ w.server.data.rows, a.mine r = true → r.id = a.ownId)
    (hfits : Assessor.Fits probability impact notes) (hfresh : w.Fresh t.changeId)
    (hdone : ((Command.upsertMyAssessment a.ownId (a.form probability impact notes) a.userId
      version).work t).eval w.client = some ((), client)) :
    Inv a api { w with client := client } m := by
  have hm : m = none ∨ m = some a.ownId := by
    cases hid : m with
    | none => exact Or.inl rfl
    | some i =>
      obtain ⟨r, hr, hmine, hri⟩ := h.stored.held i hid
      exact Or.inr (by rw [← hri, hagree r hr hmine])
  obtain ⟨hlocal, hholds, hentries⟩ := h.here.upserted hm hfits hfresh.outbox hdone
  have hunknown : Unknown w.requests w.server.receipts t.changeId :=
    ⟨hfresh.requests, hfresh.receipts⟩
  exact ⟨h.admitted, h.stored, hlocal, h.copies, h.requests, fun _ ↦ hholds,
    h.phase.queue hunknown hfresh.batch hentries, h.answers⟩

theorem choose (h : Inv a api w m) (limit : ℕ) (now : Time) (hidle : w.push = .idle)
    (hsome : w.client.outbox.getPendingChanges limit now ≠ []) :
    Inv a api { w with push := .chosen (w.client.outbox.getPendingChanges limit now) } m := by
  obtain ⟨b, hb⟩ := List.exists_mem_of_ne_nil _ hsome
  obtain ⟨hmem, hready⟩ := Device.mem_getPendingChanges hb
  have hsingle : w.client.outbox.getPendingChanges limit now = [b] := by
    have hlength := Table.length_le_one Entry.key
      (h.here.distinct.getPendingChanges limit now).keys
      fun e he ↦ h.here.own e (Device.mem_getPendingChanges he).1
    obtain ⟨x, hx⟩ := List.length_eq_one_iff.mp
      (Nat.le_antisymm hlength (List.length_pos_of_mem hb))
    rw [hx] at hb ⊢
    rw [List.mem_singleton.mp hb]
  have hknown : Known a api w.requests w.server.receipts b.change := by
    have hp := h.phase
    rw [hidle] at hp
    cases hp with
    | idle known => exact known b hmem (Device.queued_of_ready hready)
    | pushing batch => cases batch
  refine ⟨h.admitted, h.stored, h.here, h.copies, h.requests,
    fun _ ↦ h.here.paired (List.ne_nil_of_mem hmem),
    .pushing hsingle (h.here.changes b hmem) hknown fun e he ↦ ?_, h.answers⟩
  have hsame : e = b :=
    h.here.distinct.eq_of_key he hmem ((h.here.own e he).trans (h.here.own b hmem).symm)
  exact Or.inl ⟨hsame ▸ rfl, hsame ▸ Device.queued_of_ready hready, hsame ▸ rfl⟩

theorem mark (h : Inv a api w m) {batch : Outbox} (now : Time) (faults : List Fate)
    (hchosen : w.push = .chosen batch)
    (hreturned : ((Operation.markAttempted (batch.map Entry.changeId) now).work
      a.projectId).returned faults w.client = true) :
    Inv a api { w with
      client := ((Operation.markAttempted (batch.map Entry.changeId) now).work a.projectId).after
        faults w.client
      push := .sent batch
      requests := batch :: w.requests } m := by
  obtain ⟨⟨⟩, heval⟩ := Work.writeTransaction_returned hreturned
  generalize hclient : ((Operation.markAttempted (batch.map Entry.changeId) now).work
    a.projectId).after faults w.client = client
  have hclient : w.client.setOutbox (·.markOutboxIdsAttempted (batch.map Entry.changeId) now) =
      client := (congrArg Prod.snd (Option.some.inj heval)).trans hclient
  have hmarked : a.Settled api.conv m none w.client client := by
    rw [← hclient]
    refine h.here.setOutbox (h.here.distinct.update (fun _ ↦ rfl) fun _ ↦ rfl)
      (.update fun e _ _ ↦ ?_)
    exact ⟨rfl, rfl, rfl, rfl, fun _ ↦ rfl, fun _ ↦ rfl⟩
  have hp := h.phase.follow hmarked.follow
  rw [hchosen] at hp
  cases hp with
  | @pushing _ b hbatch change known abreast =>
    obtain rfl : batch = [b] := hbatch
    refine ⟨h.admitted, h.stored, hmarked.kept, h.copies, fun batch hb ↦ ?_,
      fun _ ↦ hmarked.holds (h.engaged (Or.inr ?_)),
      .pushing rfl change (known.add fun _ ↦ rfl) fun e he ↦ ?_, h.answers⟩
    · rcases List.mem_cons.mp hb with rfl | hb
      · exact ⟨b, rfl, change, known.add fun _ ↦ rfl⟩
      · obtain ⟨b', rfl, hchange, hk⟩ := h.requests batch hb
        refine ⟨b', rfl, hchange, hk.add fun hid ↦ ?_⟩
        exact (known.requests [b'] hb b' (by simp) hid.symm).symm
    · rw [hchosen]
      simp [PushPhase.batch]
    · exact (abreast e he).imp id fun hother ↦
        ⟨hother.1, fun hq ↦ (hother.2 hq).add (Ne.symm hother.1)⟩

theorem abandon (h : Inv a api w m) {batch : Outbox} (hchosen : w.push = .chosen batch) :
    Inv a api { w with push := .idle } m := by
  have hp := h.phase
  rw [hchosen] at hp
  cases hp with
  | pushing hbatch change known abreast =>
    exact ⟨h.admitted, h.stored, h.here, h.copies, h.requests,
      fun hne ↦ h.engaged (hne.imp id fun hne ↦ absurd rfl hne),
      .idle fun e he hq ↦ (abreast e he).known known hq, h.answers⟩

theorem heard [DecidableEq Digest] (h : Inv a api w m) {batch : Outbox} {clock : Uuid → Time}
    {db : Db Digest}
    {results : List ChangeResult} {push : PushPhase} (hmade : batch ∈ w.requests)
    (hpushed : api.syncPush w.server (some a.userId) a.projectId (sentChanges batch clock) =
      .ok (db, results))
    (hheard : push = w.push ∨ w.push = .sent batch ∧ push = .answered batch (.ok results)) :
    ∃ m', Inv a api { w with server := db, push := push, answers := w.answers ++ results } m' := by
  obtain ⟨b, rfl, hchange, hknown⟩ := h.requests batch hmade
  have hagreed := h.here.agreed (h.engaged (Or.inl (List.ne_nil_of_mem hmade)))
  obtain ⟨-, -, userId, huser, -, hpush⟩ := PushServer.syncPush_ok hpushed
  obtain rfl := Option.some.inj huser
  obtain ⟨hadmitted, ⟨m', hm', hstored⟩, hends, hreceipts⟩ :=
    Assessor.push_own api.conv api.sha h.admitted h.stored hagreed
      (show a.Change api.conv (b.change, clock b.changeId).1 from hchange) hknown.receipts hpush
  refine ⟨m', h.serve hadmitted hstored ?_ (fun c hc ↦ ⟨hc.requests, fun receipt hr hid ↦ ?_⟩)
    (fun id hid ↦ ⟨hid.requests, fun receipt hr ↦ ?_⟩) ?_ hends⟩
  · rcases hm' with rfl | rfl
    · exact Or.inl rfl
    · rcases hagreed with rfl | rfl
      · exact Or.inr ⟨rfl, Or.inr rfl⟩
      · exact Or.inl rfl
  · rcases hreceipts receipt hr with hr | ⟨hsame, hanswered⟩
    · exact hc.receipts receipt hr hid
    · rw [← hc.requests [b] hmade b (by simp) (hsame.symm.trans hid)]
      exact hanswered
  · rcases hreceipts receipt hr with hr | ⟨hsame, -⟩
    · exact hid.receipts receipt hr
    · rw [hsame]
      exact hid.requests [b] hmade b (by simp)
  · rcases hheard with hpush | ⟨hsent, rfl⟩
    · exact Or.inl hpush
    · exact Or.inr ⟨by rw [hsent]; rfl, by rw [hsent]; simp⟩

theorem fail (h : Inv a api w m) {batch : Outbox} (code : HttpFailure)
    (hsent : w.push = .sent batch) :
    Inv a api { w with push := .answered batch (.error code) } m := by
  have hbatch : (PushPhase.answered batch (.error code)).batch = w.push.batch := by
    rw [hsent]
    rfl
  exact ⟨h.admitted, h.stored, h.here, h.copies, h.requests,
    fun hne ↦ h.engaged (hne.imp id fun hne ↦ hbatch ▸ hne),
    h.phase.mono (fun _ hc ↦ hc) (fun _ hid ↦ hid) (Or.inr ⟨hbatch, by rw [hsent]; simp⟩),
      h.answers⟩

theorem settle (h : Inv a api w m) {batch : Outbox}
    {answer : Except HttpFailure (List ChangeResult)} (now : Time) (faults : List (List Fate))
    (hanswered : w.push = .answered batch answer) :
    Inv a api { w with
      client := Cache.perform a.projectId (answerOperations now a.projectId batch
        (answer.map fun results ↦ results.map RawResult.ofResult)) faults w.client
      push := .idle } m := by
  have hp := h.phase
  rw [hanswered] at hp
  cases hp with
  | @pushing _ b hbatch change known abreast =>
    obtain rfl : batch = [b] := hbatch
    have hsettled : a.Settled api.conv m (some b.changeId) w.client
        (Cache.perform a.projectId (answerOperations now a.projectId [b]
          (answer.map fun results ↦ results.map RawResult.ofResult)) faults w.client) := by
      rcases Assessor.answerOperations_single
          (answer.map fun results ↦ results.map RawResult.ofResult) with hnone | ⟨op, hone, honly⟩
      · rw [hnone]
        exact .refl h.here
      · have hperform : Cache.perform a.projectId [op] faults w.client =
            (op.work a.projectId).after (faults.headD []) w.client := by
          unfold Cache.perform
          exact ite_self _
        rw [hone, hperform]
        rcases op.work_after a.projectId (faults.headD []) w.client with hsame | hdone
        · rw [hsame]
          exact .refl h.here
        · exact h.here.settled honly hdone
    exact ⟨h.admitted, h.stored, hsettled.kept, h.copies, h.requests,
      fun hne ↦ hsettled.holds (h.engaged (hne.imp id fun hne ↦ absurd rfl hne)),
      .finish known abreast hsettled.follow, h.answers⟩

theorem page (h : Inv a api w m) {hardCap since : ℕ} {limit : Option ℕ}
    {cursors : PullKey → Option Cursor} {snapshot : Option ℕ} {response : PullResponse}
    (hpulled : pullSince hardCap w.server.data a.projectId since limit cursors snapshot =
      .ok response) :
    Inv a api { w with
      download := fun key ↦
        w.download key ++ (response.rows key).map (pulledRecord w.server.data key.entity) } m := by
  refine h.device (.refl h.here) fun record hr ↦ ?_
  rcases List.mem_append.mp hr with hr | hr
  · exact h.copies record hr
  · obtain ⟨r, hrow, rfl⟩ := List.mem_map.mp hr
    have hfeed := pullSince_rows hpulled hrow
    obtain ⟨hmem, hin⟩ := List.mem_filter.mp hfeed
    simp only [inFeed, Bool.and_eq_true, decide_eq_true_eq] at hin
    exact ⟨w.server.data, r, rfl, hin.1, h.stored.only r hmem,
      fun hid ↦ h.stored.own r hmem (Prod.ext hin.1 hid)⟩

theorem apply (h : Inv a api w m) (serverSequence : ℕ) (faults : List Fate) :
    Inv a api { w with
      client := (Cache.applyPull ⟨w.download, serverSequence⟩).after faults w.client
      download := fun _ ↦ [] } m := by
  refine h.device ?_ fun record hr ↦ by cases hr
  rcases (Operation.applyPull ⟨w.download, serverSequence⟩).work_after a.projectId
    faults w.client with
    hsame | hdone
  · rw [show (Cache.applyPull ⟨w.download, serverSequence⟩).after faults w.client = w.client
      from hsame]
    exact .refl h.here
  · exact h.here.pulled h.copies hdone

theorem start {w : World Digest} (h : w.Start a) : Inv a api w none := by
  have hmine : ∀ r ∈ w.server.data.rows, a.mine r ≠ true := fun r hr hmine ↦ by
    cases (h.unassessed r hr).1.symm.trans hmine
  refine ⟨h.admitted, ⟨fun r hr hm ↦ absurd hm (hmine r hr), fun i hi ↦ (by cases hi),
    fun r hr hk ↦ absurd hk (h.unassessed r hr).2, fun r hr hm ↦ absurd hm (hmine r hr)⟩,
    ⟨?_, ⟨h.keys, fun r hr hl ↦ ?_, fun _ _ _ ↦ Or.inl rfl⟩, ?_, ?_, fun hne ↦ absurd h.outbox hne⟩,
    fun record hr ↦ ?_, fun batch hb ↦ ?_, fun hne ↦ ?_, ?_, fun r hr ↦ ?_⟩
  · rw [h.outbox]
    exact ⟨.nil, .nil⟩
  · cases (h.unlisted r hr).1.symm.trans hl
  · rw [h.outbox]
    exact fun e he ↦ by cases he
  · rw [h.outbox]
    exact fun e he ↦ by cases he
  · rw [h.download] at hr
    cases hr
  · rw [h.requests] at hb
    cases hb
  · rw [h.requests, h.push] at hne
    simp [PushPhase.batch] at hne
  · rw [h.push, h.outbox]
    exact .idle fun e he ↦ by cases he
  · rw [h.answers] at hr
    cases hr

theorem step [DecidableEq Digest] {w' : World Digest} {hardCap : ℕ} {actor : Actor}
    (h : Inv a api w m)
    (hagree : w.Agreeing a actor) (hmove : Move a api hardCap w actor w') :
    ∃ m', Inv a api w' m' := by
  cases hmove with
  | put run => exact h.put hagree run
  | upsert fresh done => exact ⟨m, h.upsert hagree.1 hagree.2 fresh done⟩
  | choose limit now idle some => exact ⟨m, h.choose limit now idle some⟩
  | mark now faults chosen returned => exact ⟨m, h.mark now faults chosen returned⟩
  | abandon chosen => exact ⟨m, h.abandon chosen⟩
  | serve made pushed heard => exact h.heard made pushed heard
  | fail code sent => exact ⟨m, h.fail code sent⟩
  | settle now faults answered => exact ⟨m, h.settle now faults answered⟩
  | page pulled => exact ⟨m, h.page pulled⟩
  | apply serverSequence faults => exact ⟨m, h.apply serverSequence faults⟩

theorem reach [DecidableEq Digest] {w₀ : World Digest} {hardCap : ℕ} (h : Inv a api w₀ m)
    (hreach : World.Reach a api hardCap (World.Agreeing a) w₀ w) : ∃ m', Inv a api w m' := by
  induction hreach with
  | refl => exact ⟨m, h⟩
  | tail _ hstep ih =>
    obtain ⟨m', hm'⟩ := ih
    obtain ⟨actor, hagree, hmove⟩ := hstep
    exact hm'.step hagree hmove

end Inv

end Invariant

/-- One assessment of an item and a user, wherever it is written, in every run in which the web and
the device agree on its id. -/
theorem one_assessment {Digest : Type} [DecidableEq Digest] (a : Assessor) (api : PushServer Digest)
    (hardCap : ℕ) {w₀ w : World Digest} (hstart : w₀.Start a)
    (hreach : World.Reach a api hardCap (World.Agreeing a) w₀ w) : w.OneAssessment a := by
  have hinv : Inv a api w₀ none := .start hstart
  obtain ⟨m, h⟩ := hinv.reach hreach
  exact ⟨h.answers, h.here.listing.length_le rfl⟩

section Sample

def sampleAssessor : Assessor := ⟨1, 10, .risk, rfl, 100, 70⟩

def sampleApi : PushServer Val where
  bodyBytes _ := 0
  conv := .strict
  sha payload := payload.record.get .notes

def webScores : Dict := .ofList [(.probability, .int 2), (.impact, .int 3), (.notes, .str "")]

def webDb : Data :=
  match (ItemCall.upsertMyAssessment 100 webScores 0 50).run 10 1 .risk rfl 6 sampleDb.data with
  | .ok data => data
  | .error _ => sampleDb.data

def assessed : Cache :=
  match ((Command.upsertMyAssessment 70 (sampleAssessor.form 4 5 .null) 10 0).work
  ⟨60, 7⟩).eval {} with
  | some (_, client) => client
  | none => {}

theorem assessed_eval :
    ((Command.upsertMyAssessment 70 (sampleAssessor.form 4 5 .null) 10 0).work ⟨60, 7⟩).eval {} =
      some ((), assessed) := rfl

def assessedBatch : Outbox := assessed.outbox.getPendingChanges 100 8

def pushReply (data : Data) : Except HttpFailure (Db Val × List ChangeResult) :=
  sampleApi.syncPush ⟨data, []⟩ (some 10) 1 (sentChanges assessedBatch fun _ ↦ 9)

theorem assessedBatch_ids : assessedBatch.map Entry.changeId = [60] := by decide

theorem assessed_pushed {allowed : World Val → Actor → Prop} {data : Data} {db : Db Val}
    {results : List ChangeResult}
    (hreach : World.Reach sampleAssessor sampleApi 100 allowed
      ⟨sampleDb, {}, .idle, [], fun _ ↦ [], []⟩
      ⟨⟨data, []⟩, {}, .idle, [], fun _ ↦ [], []⟩)
    (hupsert : allowed ⟨⟨data, []⟩, {}, .idle, [], fun _ ↦ [], []⟩ (.upsert 4 5 .null))
    (hexchange : ∀ w, allowed w .exchange) (hreply : pushReply data = .ok (db, results)) :
    ∃ w, World.Reach sampleAssessor sampleApi 100 allowed
      ⟨sampleDb, {}, .idle, [], fun _ ↦ [], []⟩ w ∧
      w.answers = results := by
  have hmove : Move sampleAssessor sampleApi 100 ⟨⟨data, []⟩, {}, .idle, [], fun _ ↦ [], []⟩
      (.upsert 4 5 .null) ⟨⟨data, []⟩, assessed, .idle, [], fun _ ↦ [], []⟩ :=
    .upsert ⟨by simp, by simp [PushPhase.batch], by simp, by simp⟩ assessed_eval
  have hwritten := hreach.tail ⟨_, hupsert, hmove⟩
  have hsome : assessed.outbox.getPendingChanges 100 8 ≠ [] := by
    intro hnone
    have hids := assessedBatch_ids
    rw [assessedBatch, hnone] at hids
    cases hids
  have hchosen := hwritten.tail ⟨_, hexchange _, .choose 100 8 rfl hsome⟩
  have hsent := hchosen.tail ⟨_, hexchange _, .mark 8 [] rfl rfl⟩
  exact ⟨_, hsent.tail ⟨_, hexchange _, .serve List.mem_cons_self hreply (Or.inl rfl)⟩, rfl⟩

theorem sample_start : World.Start sampleAssessor ⟨sampleDb, {}, .idle, [], fun _ ↦ [], []⟩ := by
  have hrow : ∀ r ∈ sampleDb.data.rows, r = sampleRisk := fun r hr ↦ List.mem_singleton.mp hr
  refine ⟨⟨by decide, sampleDb_sound.rows, ⟨sampleRisk, rfl, rfl, rfl⟩, rfl,
    ⟨.manager, rfl, by decide⟩,
    by decide⟩, fun r hr ↦ ?_, List.nodup_nil, fun r hr ↦ (by cases hr), rfl, rfl, rfl, rfl, rfl⟩
  rw [hrow r hr]
  exact ⟨rfl, by decide⟩

/-- The user assesses the risk on the web first and then on a device that has not pulled: the change
of the device violates `uq_item_assessor`. -/
theorem web_first_refused :
    ¬ ∀ (a : Assessor) (api : PushServer Val) (hardCap : ℕ) (w₀ w : World Val), w₀.Start a →
      World.Reach a api hardCap (fun _ _ ↦ True) w₀ w → w.OneAssessment a := by
  intro hall
  have hput : Move sampleAssessor sampleApi 100 ⟨sampleDb, {}, .idle, [], fun _ ↦ [], []⟩ .put
      ⟨⟨webDb, []⟩, {}, .idle, [], fun _ ↦ [], []⟩ := @Move.put Val _ sampleAssessor sampleApi 100
    ⟨sampleDb, {}, .idle, [], fun _ ↦ [], []⟩ webScores 0 50 6 webDb rfl
  obtain ⟨db, r, hreply, hstatus, hreason⟩ : ∃ db r, pushReply webDb = .ok (db, [r]) ∧
    r.status = .error ∧ r.body.reason = some "constraint_violation" := ⟨_, _, rfl, rfl, rfl⟩
  obtain ⟨w, hreach, hanswers⟩ := @assessed_pushed (fun _ _ ↦ True) webDb db [r]
    (.tail .refl ⟨_, trivial, hput⟩) trivial (fun _ ↦ trivial) hreply
  have hone := hall sampleAssessor sampleApi 100 _ w sample_start hreach
  rcases hone.ends r (by rw [hanswers]; exact List.mem_singleton_self r) with hends | ⟨hends, -⟩
  · cases hstatus.symm.trans hends
  · cases hstatus.symm.trans hends

/-- A first assessment on the device is accepted. -/
theorem one_assessment_sample : ∃ w : World Val, w.answers.map ChangeResult.status = [.accepted] ∧
    World.OneAssessment sampleAssessor w := by
  have hagree : World.Agreeing sampleAssessor
      (⟨⟨sampleDb.data, []⟩, {}, .idle, [], fun _ ↦ [], []⟩ : World Val) (.upsert 4 5 .null) := by
    refine ⟨fun r hr hmine ↦ ?_, rfl, rfl, Or.inl rfl⟩
    rw [List.mem_singleton.mp hr] at hmine
    cases hmine
  obtain ⟨db, r, hreply, hstatus⟩ : ∃ db r, pushReply sampleDb.data = .ok (db, [r]) ∧
    r.status = .accepted := ⟨_, _, rfl, rfl⟩
  obtain ⟨w, hreach, hanswers⟩ := @assessed_pushed (World.Agreeing sampleAssessor)
      sampleDb.data db [r]
    .refl hagree (fun _ ↦ trivial) hreply
  refine ⟨w, ?_, one_assessment sampleAssessor sampleApi 100 sample_start hreach⟩
  rw [hanswers]
  exact congrArg (fun status ↦ [status]) hstatus

end Sample

end RiskApp.Client

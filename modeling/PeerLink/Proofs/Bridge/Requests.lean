import PeerLink.Proofs.Bridge.Launch
import PeerLink.Proofs.Bridge.Traffic
import PeerLink.Proofs.Connection.Request
/-!
# Requests

A request is rejected without any effect, or it is sent once and ends once. A command is sent to the
supervisor exactly if the caller gets a transient error, and this command carries the epoch in which
the request was made.

## Main definitions

* `World.Asks`: the world after a request has been sent.
* `World.Reports`: the world after a request has ended.

## Main statements

* `World.begin_of_closed`, `World.begin_of_not_configured`, `World.begin_of_not_acceptsWrites`: the
  requests that are rejected.
* `World.begin_of_sent`: the requests that are sent.
* `World.ends_finishCall`, `World.reports_finishCall`: the end of a request.
* `World.contract_of_request`: the contract of every request.
-/

namespace PeerLink

open Transport Connection

/-- What a request sends: its method, the address of its path and its query, the type of its body if
it has one, and the body if the method carries one. -/
theorem Connection.Session.outgoing_eq (s : Session) (r : Request) : s.outgoing r =
    { method := r.method
      url := s.url r.path r.query
      headers := (r.body.map fun body => ("Content-Type", body.contentType)).toList
      body := if r.method = .post ∨ r.method = .put then
        some ((r.body.map RequestBody.render).getD "") else none } := by
  cases r with
  | mk method path query body => cases method <;> cases body <;> rfl

namespace Bridge.World

variable {w : World} {r : Request}

/-! ## Requests that are rejected -/

/-- Once the view is closed every request is refused. -/
theorem begin_of_closed (hclosed : w.supervisor.view.closed) :
    w.begin r = (w, .replied (.error .shutdown)) := by
  simp [begin, ClientView.admit, hclosed]

/-- Without a session every request is refused. -/
theorem begin_of_not_configured (hclosed : ¬w.supervisor.view.closed)
    (hsession : w.supervisor.view.session = none) :
    w.begin r = (w, .replied (.error .notConfigured)) := by
  simp [begin, ClientView.admit, hclosed, hsession]

/-- A request that writes is suppressed if the view does not accept writes. -/
theorem begin_of_not_acceptsWrites (hclosed : ¬w.supervisor.view.closed) {session : Session}
    (hsession : w.supervisor.view.session = some session) (hmutating : r.method.isMutating)
    (hwrites : ¬w.supervisor.view.status.acceptsWrites) :
    w.begin r = (w, .replied (.ok none)) := by
  simp [begin, ClientView.admit, hclosed, hsession, hmutating, hwrites]

/-! ## Requests that are sent -/

/-- From `w` to `w'` the request `out` is sent, and no command. -/
structure Asks (w : World) (out : Outgoing) (w' : World) : Prop where
  requests : w'.script.requests = w.script.requests ++ [out]
  observed : w'.trace.requests = w.trace.requests ++ [out]
  commands : w'.commands = w.commands
  supervisor : w'.supervisor = w.supervisor

/-- From `w` to `w'` no request is sent, and the command that reports `lost`, if there is a loss. -/
structure Reports (w : World) (epoch : Nat) (lost : Option String) (w' : World) : Prop where
  requests : w'.script.requests = w.script.requests
  observed : w'.trace.requests = w.trace.requests
  commands : w'.commands = w.commands ++
    if w.supervisor.alive then (lost.map (.setOffline (some epoch))).toList else []
  supervisor : w'.supervisor = w.supervisor

/-- Any other request is sent once and carries the epoch of the view. It ends at once or when the
answer arrives. -/
theorem begin_of_sent (hclosed : ¬w.supervisor.view.closed) {session : Session}
    (hsession : w.supervisor.view.session = some session)
    (hwrites : r.method.isMutating → w.supervisor.view.status.acceptsWrites) :
    let out := session.outgoing r
    let call : Call := ⟨r, w.supervisor.view.status.epoch, (w.script.respond out).1⟩
    ∃ sent, w.Asks out sent ∧
      (w.delayOf out.url = 0 → w.begin r =
        ((sent.finishCall call).1, .replied ((sent.finishCall call).2.map some))) ∧
      (w.delayOf out.url ≠ 0 → w.begin r = (sent, .away call (w.delayOf out.url))) := by
  intro out call
  have hadmit : w.supervisor.view.admit r = .sent w.supervisor.view.status.epoch out := by
    have hnot : (r.method.isMutating && !w.supervisor.view.status.acceptsWrites) = false := by
      cases hm : r.method.isMutating with
      | false => rfl
      | true => simp [hwrites hm]
    simp [hclosed, hsession, hnot, out, ClientView.admit]
  let sent := { w with script := (w.script.respond out).2 }.observe out
  refine ⟨sent, ⟨w.script.requests_respond out, rfl, rfl, rfl⟩, fun hzero => ?_, fun hdelay => ?_⟩
  · have hsent : sent.delayOf out.url = 0 := hzero
    rw [begin, hadmit]
    dsimp only
    rw [hsent]
    rfl
  · have hsent : sent.delayOf out.url ≠ 0 := hdelay
    rw [begin, hadmit]
    dsimp only
    split
    next hzero => exact absurd hzero hsent
    next => rfl

/-! ## The end of a request -/

/-- A request ends as its outcome says. -/
theorem ends_finishCall (w : World) (call : Call) : ∃ lost,
    call.request.Ends call.answer (w.finishCall call).2 lost ∧
      w.Reports call.epoch lost (w.finishCall call).1 := by
  refine ⟨(call.request.conclude call.answer).lost, call.request.ends_conclude call.answer, ?_⟩
  have htold (reason : String) :
      w.Reports call.epoch (some reason) (w.send (.setOffline (some call.epoch) reason)).1 := by
    by_cases ha : w.supervisor.alive
    · obtain ⟨ready, heq⟩ := send_of_alive ha (.setOffline (some call.epoch) reason)
      rw [heq]
      exact ⟨rfl, rfl, by simp [ha], rfl⟩
    · rw [send_of_not_alive ha]
      exact ⟨rfl, rfl, by simp [ha], rfl⟩
  unfold finishCall
  rcases call.request.conclude call.answer with ⟨_, _ | reason, _ | text⟩
  · exact ⟨rfl, rfl, by simp, rfl⟩
  · exact ⟨rfl, rfl, by simp [log], rfl⟩
  · exact htold reason
  · obtain ⟨hrequests, hobserved, hcommands, hsupervisor⟩ := htold reason
    exact ⟨hrequests, hobserved, hcommands, hsupervisor⟩

/-- The contract of a request `r` in any world `w`. It is refused if the view is closed, else
refused without a session, else suppressed if it writes and the view does not accept writes. In
these cases the world stays as it is. Otherwise `r` is sent once, with its own address, type and
body, and with the epoch of the view. Whatever the answer and whenever it arrives, no other request
is sent. One command with this epoch is sent to the supervisor exactly if the caller gets a
transient error. A response is passed on as it is, and so is a failure that neither breaks the
connection nor shows a server that cannot serve. -/
theorem contract_of_request (w : World) (r : Request) :
    let v := w.supervisor.view
    (v.closed → w.begin r = (w, .replied (.error .shutdown))) ∧
    (¬v.closed → v.session = none → w.begin r = (w, .replied (.error .notConfigured))) ∧
    (∀ session, ¬v.closed → v.session = some session →
      r.method.isMutating → ¬v.status.acceptsWrites → w.begin r = (w, .replied (.ok none))) ∧
    (∀ session, ¬v.closed → v.session = some session →
      (r.method.isMutating → v.status.acceptsWrites) →
      let out : Outgoing := {
        method := r.method
        url := session.url r.path r.query
        headers := (r.body.map fun body => ("Content-Type", body.contentType)).toList
        body := if r.method = .post ∨ r.method = .put then
          some ((r.body.map RequestBody.render).getD "") else none }
      let call : Call := ⟨r, v.status.epoch, (w.script.respond out).1⟩
      ∃ sent, w.Asks out sent ∧
        (w.delayOf out.url = 0 → w.begin r =
          ((sent.finishCall call).1, .replied ((sent.finishCall call).2.map some))) ∧
        (w.delayOf out.url ≠ 0 → w.begin r = (sent, .away call (w.delayOf out.url)))) ∧
    ∀ (u : World) (epoch : Nat) (answer : Except Failure Response),
      let result := (u.finishCall ⟨r, epoch, answer⟩).2
      ∃ lost, r.Ends answer result lost ∧ u.Reports epoch lost (u.finishCall ⟨r, epoch, answer⟩).1 ∧
        ((∃ e, result = .error e ∧ e.isTransient) ↔ ∃ reason, lost = some reason) ∧
        (∀ response, result = .ok response ↔ answer = .ok response ∧ response.status < 500 ∧
          (r.expectSuccess → response.status < 400)) ∧
        ∀ cause, answer = .error cause → ¬cause.Severs → (∀ status, ¬cause.Unserving status) →
          result = .error (.transport cause) := by
  refine ⟨begin_of_closed, begin_of_not_configured, fun session hclosed hsession =>
    begin_of_not_acceptsWrites hclosed hsession, fun session hclosed hsession hwrites => ?_,
    fun u epoch answer => ?_⟩
  · have hsent := begin_of_sent hclosed hsession hwrites
    rwa [session.outgoing_eq] at hsent
  · obtain ⟨lost, hends, hreports⟩ := u.ends_finishCall ⟨r, epoch, answer⟩
    exact ⟨lost, hends, hreports, hends.isTransient_iff, hends.ok_iff, fun cause hcause =>
      hends.eq_transport hcause⟩

/-- A request is sent before the connection is up, and answered by 503. The caller gets an error,
and a command is sent to the supervisor. -/
theorem contract_of_request_demo :
    let w := demo.course [.go supervisorId,
      .step (.respond "http://demo/slow" (.response ⟨503, []⟩))]
    w.supervisor.view.session = some ⟨"http://demo"⟩ ∧
    ∃ v : World, w.begin (.quietGet "/slow" false) =
        (v, .replied (.error (.notReady .get "/slow" 503))) ∧
      v.script.requests = w.script.requests ++ [⟨.get, "http://demo/slow", [], none⟩] ∧
      ∃ reason, v.commands = w.commands ++ [.setOffline (some 1) reason] := by
  intro w
  have hsession : w.supervisor.view.session = some ⟨"http://demo"⟩ := by decide +kernel
  have hclosed : ¬w.supervisor.view.closed := by decide +kernel
  have halive : w.supervisor.alive := by decide +kernel
  have hout : (Session.mk "http://demo").outgoing (.quietGet "/slow" false) =
      ⟨.get, "http://demo/slow", [], none⟩ := by decide +kernel
  have hanswer : (w.script.respond ⟨.get, "http://demo/slow", [], none⟩).1 = .ok ⟨503, []⟩ := by
    decide +kernel
  have hepoch : w.supervisor.view.status.epoch = 1 := by decide +kernel
  obtain ⟨-, -, -, hsent, hend⟩ := contract_of_request w (.quietGet "/slow" false)
  have hsent := hsent ⟨"http://demo"⟩ hclosed hsession (by decide)
  rw [← Session.outgoing_eq, hout] at hsent
  dsimp only at hsent
  rw [hanswer, hepoch] at hsent
  obtain ⟨sent, hasks, hnow, -⟩ := hsent
  obtain ⟨lost, hends, hreports, -⟩ := hend sent 1 (.ok ⟨503, []⟩)
  have hbegin := hnow (by decide +kernel)
  obtain ⟨hresult, reason, rfl⟩ : (sent.finishCall ⟨.quietGet "/slow" false, 1, .ok ⟨503, []⟩⟩).2 =
      .error (.notReady .get "/slow" 503) ∧ ∃ reason, lost = some reason := by
    generalize (sent.finishCall _).2 = result at hends
    cases hends with
    | taken _ hserving => exact absurd hserving (by decide)
    | notReady => exact ⟨rfl, _, rfl⟩
    | unsuccessful _ hserving => exact absurd hserving (by decide)
  refine ⟨hsession, _, hbegin.trans (by rw [hresult]; rfl), hreports.requests.trans hasks.requests,
    reason, ?_⟩
  rw [hreports.commands, hasks.commands, hasks.supervisor, if_pos halive]
  rfl

end Bridge.World

end PeerLink

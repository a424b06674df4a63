import Mathlib

set_option autoImplicit false

/-!
# A client session

`HttpSession` over an asynchronous stream: one request at a time is resolved,
connected, written and its response read. Every asynchronous operation stays in
the session until the event loop completes it.
-/
namespace CrowCore.ClientSession

inductive ConnectionState where
  | monostate
  | inUse
  | idle
  | disconnected
deriving DecidableEq, Repr

inductive Operation where
  | resolve
  | connect
  | handshake
  | write
  | read
deriving DecidableEq, Repr

inductive Stream where
  | asyncTcp
  | asyncSsl
deriving DecidableEq, Repr

/-- `R` is the type of requests, `H` that of response handlers. A request is
missing in a new session and after `takeRequest`. -/
structure HttpSession (R H : Type) where
  stream : Stream
  connectionState : ConnectionState := .monostate
  req : Option R := none
  responseHandler : Option H := none
  /-- request operations started and not completed -/
  outstanding : List Operation := []
  /-- waits started by `monitorForError` -/
  idleWaits : ℕ := 0
  /-- shutdowns started by `shutDown` -/
  shutDowns : ℕ := 0
deriving DecidableEq, Repr

namespace HttpSession
variable {R H : Type}

def inUse (session : HttpSession R H) : Bool := session.connectionState == .inUse

def start (session : HttpSession R H) (op : Operation) : HttpSession R H :=
  { session with connectionState := .inUse, outstanding := session.outstanding ++ [op] }

def write (session : HttpSession R H) : HttpSession R H :=
  match session.connectionState with
  | .monostate | .inUse => session
  | .idle => session.start .write
  | .disconnected => session.start .resolve

def read (session : HttpSession R H) : HttpSession R H :=
  match session.connectionState with
  | .monostate | .inUse => session
  | .idle => session.start .read
  | .disconnected => session.start .resolve

def execute (session : HttpSession R H) : HttpSession R H :=
  match session.connectionState with
  | .monostate => { session with connectionState := .disconnected }.start .resolve
  | _ => session.write

def run (session : HttpSession R H) (req : Option R) : HttpSession R H :=
  { session with req := req }.execute

/-- A TCP stream is closed at once. -/
def shutDown (session : HttpSession R H) : HttpSession R H :=
  match session.stream with
  | .asyncTcp => session
  | .asyncSsl => { session with shutDowns := session.shutDowns + 1 }

def monitorForError (session : HttpSession R H) : HttpSession R H :=
  { session with idleWaits := session.idleWaits + 1 }

def on_connect (session : HttpSession R H) : HttpSession R H :=
  { session with connectionState := .idle }.write

def on_write (session : HttpSession R H) : HttpSession R H :=
  { session with connectionState := .idle }.read

/-- The response handler is not called: its call is commented out. -/
def on_read (session : HttpSession R H) (keepAlive : Bool) : HttpSession R H :=
  let session := { session with connectionState := .idle }
  if !keepAlive then { session with connectionState := .monostate }.shutDown
  else session.monitorForError

/-- The completion of an operation without error; `keepAlive` is what the
response says. -/
def complete (session : HttpSession R H) (op : Operation) (keepAlive : Bool) : HttpSession R H :=
  let session := { session with outstanding := session.outstanding.erase op }
  match op with
  | .resolve => { session with outstanding := session.outstanding ++ [.connect] }
  | .connect =>
    match session.stream with
    | .asyncTcp => session.on_connect
    | .asyncSsl => { session with outstanding := session.outstanding ++ [.handshake] }
  | .handshake => session.on_connect
  | .write => session.on_write
  | .read => session.on_read keepAlive

def takeRequest (session : HttpSession R H) : Option R × HttpSession R H :=
  (session.req, { session with req := none })

end HttpSession

variable {R H : Type}

/-- A session is in use exactly while its one operation is outstanding. -/
@[mk_iff truthful_iff]
structure Truthful (session : HttpSession R H) : Prop where
  at_most_one : session.outstanding.length ≤ 1
  inUse_iff : session.inUse ↔ session.outstanding ≠ []

def AtRest (session : HttpSession R H) : Prop := session.outstanding = []

theorem Truthful.atRest {session : HttpSession R H} (h : Truthful session)
    (hfree : session.inUse = false) : AtRest session := by
  by_contra hne
  rw [h.inUse_iff.2 hne] at hfree
  cases hfree

theorem truthful_start {session : HttpSession R H} (hrest : AtRest session) (op : Operation) :
    Truthful (session.start op) := by
  unfold AtRest at hrest
  constructor <;> simp [HttpSession.start, HttpSession.inUse, hrest]

theorem run_starts {session : HttpSession R H} (hfree : session.inUse = false) (req : Option R) :
    ∃ op state, session.run req =
      { session with req := req, connectionState := state }.start op := by
  unfold HttpSession.inUse at hfree
  rcases hstate : session.connectionState
  · exact ⟨.resolve, .disconnected, by simp [HttpSession.run, HttpSession.execute, hstate]⟩
  · simp [hstate] at hfree
  · refine ⟨.write, .idle, ?_⟩
    simp [HttpSession.run, HttpSession.execute, HttpSession.write, hstate]
  · refine ⟨.resolve, .disconnected, ?_⟩
    simp [HttpSession.run, HttpSession.execute, HttpSession.write, hstate]

@[simp] theorem run_req (session : HttpSession R H) (req : Option R) :
    (session.run req).req = req := by
  cases hstate : session.connectionState <;>
    simp [HttpSession.run, HttpSession.execute, HttpSession.write, HttpSession.start, hstate]

@[simp] theorem complete_req (session : HttpSession R H) (op : Operation) (keepAlive : Bool) :
    (session.complete op keepAlive).req = session.req := by
  cases op <;> cases hstream : session.stream <;> cases keepAlive <;>
    simp [HttpSession.complete, HttpSession.on_connect, HttpSession.on_write, HttpSession.on_read,
      HttpSession.write, HttpSession.read, HttpSession.start, HttpSession.shutDown,
      HttpSession.monitorForError, hstream]

@[simp] theorem shutDown_req (session : HttpSession R H) : session.shutDown.req = session.req := by
  unfold HttpSession.shutDown
  split <;> rfl

@[simp] theorem shutDown_outstanding (session : HttpSession R H) :
    session.shutDown.outstanding = session.outstanding := by
  unfold HttpSession.shutDown
  split <;> rfl

theorem complete_spec {session : HttpSession R H} (h : Truthful session) {op : Operation}
    (hop : op ∈ session.outstanding) (keepAlive : Bool) :
    Truthful (session.complete op keepAlive) ∧
      (AtRest (session.complete op keepAlive) ↔ op = .read) := by
  obtain ⟨hlen, hinUse⟩ := h
  obtain ⟨op', hout⟩ := List.length_eq_one_iff.1
    (le_antisymm hlen (List.length_pos_iff.2 (List.ne_nil_of_mem hop)))
  rw [hout, List.mem_singleton] at hop
  subst hop
  rw [hout] at hinUse
  have hstate : session.connectionState = .inUse := by simpa [HttpSession.inUse] using hinUse
  cases op <;> cases hstream : session.stream <;> cases keepAlive <;>
    simp [HttpSession.complete, HttpSession.on_connect, HttpSession.on_write, HttpSession.on_read,
      HttpSession.write, HttpSession.read, HttpSession.start, HttpSession.shutDown,
      HttpSession.monitorForError, HttpSession.inUse, AtRest, truthful_iff, hout, hstate, hstream]

end CrowCore.ClientSession

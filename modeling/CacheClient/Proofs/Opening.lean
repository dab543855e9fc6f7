import CacheClient.Proofs.SocketCalls
import CacheClient.Script

namespace CacheClient

theorem toInt_nanoseconds {milliseconds : Int64} (positive : 0 < milliseconds.toInt)
    (fits : milliseconds.toInt ≤ 9223372036854) :
    (nanoseconds milliseconds).toInt = milliseconds.toInt * 1000000 := by
  rw [nanoseconds, Int64.toInt_mul, show Int64.toInt 1000000 = 1000000 from rfl]
  exact Int.bmod_eq_of_le (by omega) (by omega)

/-- How long a timer runs that counts nanoseconds. -/
def Deadline.span : Deadline → Option Int64
  | never => none
  | after milliseconds => some (nanoseconds milliseconds)

/-- The timeouts that such a timer keeps. -/
theorem Deadline.span_exact {milliseconds : Int64} (positive : 0 < milliseconds) :
    ∃ span, (Deadline.ofTimeout milliseconds).span = some span ∧
      (span.toInt = milliseconds.toInt * 1000000 ↔ milliseconds.toInt ≤ 9223372036854) := by
  refine ⟨nanoseconds milliseconds, by rw [ofTimeout, if_pos positive, span], fun h => ?_,
    toInt_nanoseconds (Int64.lt_iff_toInt_lt.mp positive)⟩
  have hlt := (nanoseconds milliseconds).toInt_lt
  omega

namespace DialOptions

variable {options : DialOptions} {began now : Int64}

/-- The steady clock can show the time by which the stream must be open. -/
def Countable (began : Int64) (options : DialOptions) : Prop :=
  0 < options.connectTimeout ∧ 0 ≤ began ∧
    began.toInt + options.connectTimeout.toInt * 1000000 ≤ Int64.maxValue.toInt

theorem Countable.toInt_limit (h : options.Countable began) : ∃ limit, options.limit began = some limit ∧
    limit.toInt = began.toInt + options.connectTimeout.toInt * 1000000 := by
  obtain ⟨limited, begun, fits⟩ := h
  have hbegan : 0 ≤ began.toInt := Int64.le_iff_toInt_le.mp begun
  have hlimited : 0 < options.connectTimeout.toInt := Int64.lt_iff_toInt_lt.mp limited
  have hmax : Int64.maxValue.toInt = 9223372036854775807 := rfl
  refine ⟨_, if_pos limited, ?_⟩
  rw [Int64.toInt_add, toInt_nanoseconds hlimited (by omega)]
  exact Int.bmod_eq_of_le (by omega) (by omega)

theorem Countable.toInt_left (h : options.Countable began) (later : began ≤ now) :
    (options.left began now).toInt =
      (options.connectTimeout.toInt * 1000000 - (now.toInt - began.toInt)).tdiv 1000000 := by
  obtain ⟨limit, hlimit, hexact⟩ := h.toInt_limit
  have hbegan : 0 ≤ began.toInt := Int64.le_iff_toInt_le.mp h.2.1
  have hlimited : 0 < options.connectTimeout.toInt := Int64.lt_iff_toInt_lt.mp h.1
  have hfits := limit.toInt_lt
  have hlast := now.toInt_lt
  have hnow : 0 ≤ now.toInt := Int.le_trans hbegan (Int64.le_iff_toInt_le.mp later)
  have hdifference : (limit - now).toInt = limit.toInt - now.toInt := by
    rw [Int64.toInt_sub]
    exact Int.bmod_eq_of_le (by omega) (by omega)
  rw [left, hlimit]
  show ((limit - now) / 1000000).toInt = _
  rw [Int64.toInt_div_of_ne_right _ _ (by decide), hdifference, hexact]
  exact congrArg (Int.tdiv · 1000000) (by omega)

end DialOptions

/-- What is asked of a network at one time. -/
inductive Demand where
  | dial (endpoint : Endpoint) (options : DialOptions)
  | read (id room : Nat)
  | write (id : Nat) (bytes : Bytes)
  | close (id : Nat)

/-- The call that a demand comes to if it reads from this socket or writes to it. -/
def Demand.talk? (id : Nat) (deadline : Deadline) : Demand → Option Call
  | .read of room => if of = id then some (.read id room deadline) else none
  | .write of bytes => if of = id then some (.write id bytes deadline) else none
  | _ => none

namespace Wire

section Demands

variable [Network σ]

def demand : Demand → Wire σ → Wire σ
  | .dial endpoint options, wire => (wire.dial endpoint options).2
  | .read id room, wire => (wire.read id room).2
  | .write id bytes, wire => (wire.write id bytes).2
  | .close id, wire => wire.close id

def demands (demands : List Demand) (wire : Wire σ) : Wire σ :=
  demands.foldl (fun wire demand => wire.demand demand) wire

end Demands

variable [Sockets τ]

theorem talks_dial (endpoint : Endpoint) (options : DialOptions) (began : Int64) (of : Nat) (state : τ)
    (found : Except Fault (List Bytes × Int64)) (id : Nat) :
    (SocketNetwork.lookups endpoint options began ++
      SocketNetwork.connects of endpoint state found).filter (Call.talks id) = [] := by
  have hlookups : (SocketNetwork.lookups endpoint options began).filter (Call.talks id) = [] := by
    rw [SocketNetwork.lookups]
    split <;> rfl
  rw [List.filter_append, hlookups, List.nil_append]
  cases found with
  | error fault => rfl
  | ok found =>
    simp only [SocketNetwork.connects]
    split <;> by_cases h : of = id <;> simp [Call.talks, Call.asks, Asked.talk, h]

theorem Opens.made {wire : Wire (SocketNetwork (Recorded τ))} {endpoint : Endpoint} {options : DialOptions}
    {dialed : Answer (Option Nat) × Wire (SocketNetwork (Recorded τ))}
    (h : wire.Opens endpoint options dialed) :
    ∃ found state, Recorded.Made (SocketNetwork.lookups endpoint options (Sockets.steady wire.state.state) ++
      SocketNetwork.connects wire.opened endpoint (state : Recorded τ) found)
        wire.state.state dialed.2.state.state := by
  cases h with
  | opened dials | refused dials =>
    obtain ⟨found, state, -, -, hmade⟩ := dials.made
    exact ⟨found, state, hmade⟩

section Limits

variable {id : Nat} {limit : Int64}

/-- A socket that runs under a limit. Its number is not given to another any more. -/
structure Limits (id : Nat) (limit : Int64) (wire : Wire (SocketNetwork τ)) : Prop where
  opened : id < wire.opened
  timeout : wire.state.timeout? id = some limit

namespace Limits

section Any

variable {wire : Wire (SocketNetwork τ)}

omit [Sockets τ] in
theorem deadline (h : wire.Limits id limit) :
    (wire.state.arm id).deadline id = .ofTimeout limit := by
  obtain ⟨socket, hsocket, rfl⟩ := Option.map_eq_some_iff.1 h.timeout
  exact SocketNetwork.deadline_arm hsocket

theorem of_dials {endpoint : Endpoint} {options : DialOptions} {network : SocketNetwork τ} {journal : List Event}
    (h : SocketNetwork.Dials wire.opened endpoint options wire.state none network) :
    Limits wire.opened options.ioTimeout ⟨network, journal, wire.opened + 1⟩ := by
  cases h
  exact ⟨Nat.lt_succ_self _, by simp [SocketNetwork.timeout?, SocketNetwork.socket?]⟩

theorem of_opens {endpoint : Endpoint} {options : DialOptions}
    {dialed : Answer (Option Nat) × Wire (SocketNetwork τ)} (h : wire.Limits id limit)
    (ho : wire.Opens endpoint options dialed) : dialed.2.Limits id limit := by
  cases ho with
  | refused dials => cases dials <;> exact ⟨h.opened, h.timeout⟩
  | opened dials =>
    cases dials
    refine ⟨Nat.lt_succ_of_lt h.opened, ?_⟩
    -- the new socket comes first, but has another number
    have hother : ¬wire.opened = id := (Nat.ne_of_lt h.opened).symm
    simp only [SocketNetwork.timeout?, SocketNetwork.socket?, List.find?_cons, hother, decide_false]
    exact h.timeout

theorem demand (h : wire.Limits id limit) (demand : Demand) : (wire.demand demand).Limits id limit := by
  cases demand with
  | dial endpoint options => exact h.of_opens (wire.dial_opens endpoint options)
  | read of room => exact ⟨h.opened, SocketNetwork.timeout?_arm.trans h.timeout⟩
  | write of bytes => exact ⟨h.opened, SocketNetwork.timeout?_arm.trans h.timeout⟩
  | close of =>
    refine ⟨h.opened, ?_⟩
    show ((wire.state.close of).close of).timeout? id = some limit
    rw [SocketNetwork.timeout?_close, SocketNetwork.timeout?_close, h.timeout]

end Any

variable {wire : Wire (SocketNetwork (Recorded τ))}

/-- A read or a write of the socket starts under its own limit. -/
theorem demand_made (h : wire.Limits id limit) (demand : Demand) : ∃ calls,
    Recorded.Made calls wire.state.state (wire.demand demand).state.state ∧
    calls.filter (Call.talks id) = (demand.talk? id (.ofTimeout limit)).toList := by
  cases demand with
  | dial endpoint options =>
    obtain ⟨found, state, hmade⟩ := (wire.dial_opens endpoint options).made
    exact ⟨_, hmade, talks_dial ..⟩
  | read of room =>
    refine ⟨_, wire.state.read_made of room, ?_⟩
    by_cases hsame : of = id
    · subst hsame
      simp [h.deadline, Call.talks, Call.asks, Asked.talk, Demand.talk?]
    · simp [Call.talks, Call.asks, Demand.talk?, hsame]
  | write of bytes =>
    refine ⟨_, wire.state.write_made of bytes, ?_⟩
    by_cases hsame : of = id
    · subst hsame
      simp [h.deadline, Call.talks, Call.asks, Asked.talk, Demand.talk?]
    · simp [Call.talks, Call.asks, Demand.talk?, hsame]
  | close of =>
    -- a wire closes a stream and then lets go of it, which closes it again
    show ∃ calls, Recorded.Made calls wire.state.state ((wire.state.close of).close of).state ∧ _
    rw [SocketNetwork.close_close]
    cases hopen : wire.state.isOpen of with
    | false =>
      rw [SocketNetwork.close_of_shut hopen]
      exact ⟨[], .refl _, rfl⟩
    | true =>
      refine ⟨_, SocketNetwork.close_made hopen, ?_⟩
      by_cases hsame : of = id <;> simp [Call.talks, Call.asks, Asked.talk, Demand.talk?, hsame]

theorem demands_made (h : wire.Limits id limit) (demands : List Demand) : ∃ calls,
    Recorded.Made calls wire.state.state (wire.demands demands).state.state ∧
    calls.filter (Call.talks id) = demands.filterMap (Demand.talk? id (.ofTimeout limit)) := by
  induction demands generalizing wire with
  | nil => exact ⟨[], .refl _, rfl⟩
  | cons demand demands ih =>
    obtain ⟨first, hfirst, htalks⟩ := h.demand_made demand
    obtain ⟨rest, hrest, hothers⟩ := ih (h.demand demand)
    refine ⟨first ++ rest, hfirst.trans hrest, ?_⟩
    rw [List.filter_append, htalks, hothers, List.filterMap_cons]
    cases demand.talk? id (.ofTimeout limit) <;> rfl

end Limits

end Limits

/-- A dial asks for a lookup if the endpoint has a host, and for one connect if there is by then something to
connect to and time left for it. If that succeeds there is a stream, and from then on each read and each write of
it starts under the limit for reads and writes, whatever else is asked of the network in between. If anything
fails, the dial names the endpoint and what failed; a socket that the connect has left open is shut down and
closed, and there are no more sockets and streams than before. The time for opening a stream is kept as long as it
ends while the clock that counts nanoseconds can show it; so is a timeout of a read or write that can be counted in
nanoseconds. -/
theorem dials_and_deadlines (endpoint : Endpoint) (options : DialOptions)
    (wire : Wire (SocketNetwork (Recorded τ))) :
    let answer := (wire.dial endpoint options).1
    let next := (wire.dial endpoint options).2
    let began := Sockets.steady wire.state.state
    let budget := options.connectTimeout.toInt * 1000000
    (∃ found state, SocketNetwork.Sought endpoint options wire.state.state found state ∧
      Recorded.Made (SocketNetwork.lookups endpoint options began ++
        SocketNetwork.connects wire.opened endpoint state found) wire.state.state next.state.state ∧
      match SocketNetwork.obstacle wire.opened endpoint state found with
      | some fault =>
        answer = .error ⟨.connectionError, ascii "Connect to " ++ endpoint.text ++ ascii " failed: " ++
          (if fault = .deadline then ascii "connect timed out" else fault.text), []⟩ ∧
        next.state.sockets = wire.state.sockets ∧ next.live = wire.live
      | none =>
        answer = .ok (some wire.opened) ∧ next.state.isOpen wire.opened = true ∧
        ∀ demands, ∃ calls, Recorded.Made calls next.state.state (next.demands demands).state.state ∧
          calls.filter (Call.talks wire.opened) = demands.filterMap (Demand.talk? wire.opened
            (if 0 < options.ioTimeout then .after options.ioTimeout else .never))) ∧
    (options.Countable began →
      (∃ limit, options.limit began = some limit ∧ limit.toInt = began.toInt + budget) ∧
      ∀ now, began ≤ now →
        (options.left began now).toInt = (budget - (now.toInt - began.toInt)).tdiv 1000000) ∧
    (0 < options.ioTimeout → ∃ span, (Deadline.ofTimeout options.ioTimeout).span = some span ∧
      (span.toInt = options.ioTimeout.toInt * 1000000 ↔ options.ioTimeout.toInt ≤ 9223372036854)) := by
  intro answer next began budget
  refine ⟨?_, fun h => ⟨h.toInt_limit, fun _ => h.toInt_left⟩, Deadline.span_exact⟩
  have ho := wire.dial_opens endpoint options
  simp only [answer, next]
  generalize wire.dial endpoint options = dialed at ho ⊢
  cases ho with
  | refused dials =>
    obtain ⟨found, state, hsought, hobstacle, hmade⟩ := dials.made
    refine ⟨found, state, hsought, hmade, ?_⟩
    rw [hobstacle]
    refine ⟨rfl, dials.refused_sockets, ?_⟩
    simp only [live, List.any_cons, Event.closes, Bool.false_or]
  | opened dials =>
    obtain ⟨found, state, hsought, hobstacle, hmade⟩ := dials.made
    refine ⟨found, state, hsought, hmade, ?_⟩
    rw [hobstacle]
    exact ⟨rfl, by simp [dials.opened_isOpen], (Limits.of_dials dials).demands_made⟩

/-- Of more than nine million years the lookup takes a nanosecond. But their nanoseconds wrap around to those of
one millisecond, and what is left of that is cut to nothing: there is no connect, although it would succeed. -/
theorem long_limit_times_out :
    let endpoint := Endpoint.tcp (ascii "h") (ascii "1")
    let options : DialOptions := ⟨288230376151711745, 0, .system⟩
    let wire := start (SocketNetwork.start (Recorded.mk ({} : Script) []))
    let looked := SocketNetwork.lookUp endpoint options wire.state.state
    let dialed := wire.dial endpoint options
    looked.1.found.toOption = some [ascii "h/1"] ∧ looked.1.inTime = true ∧
      (Sockets.steady looked.2).toInt - (Sockets.steady wire.state.state).toInt = 1 ∧
      1000000 < options.connectTimeout.toInt * 1000000 ∧
      (Sockets.connect 0 .tcp [ascii "h/1"] .never looked.2).1 = .reached ∧
      dialed.1.failure?.map (fun failure => (failure.kind, failure.message)) =
        some (.connectionError, ascii "Connect to h:1 failed: connect timed out") ∧
      dialed.2.state.state.calls = [.lookup .system (ascii "h") (ascii "1") (some 1000000)] := by
  decide +kernel

/-- A second for opening the stream, of which the lookup takes some, and then 300 milliseconds for each read and
each write. -/
example :
    let opened := ((start (SocketNetwork.start (Recorded.mk ({} : Script) []))).dial
      (.tcp (ascii "a") (ascii "1")) ⟨1000, 300, .system⟩).2
    (opened.demands [.write 0 (ascii "x"), .close 0, .read 0 1]).state.state.calls.reverse =
      [.lookup .system (ascii "a") (ascii "1") (some 1000000000),
        .connect 0 .tcp [ascii "a/1"] (.after 999) .reached,
        .write 0 (ascii "x") (.after 300), .shutdown 0, .close 0, .read 0 1 (.after 300)] := by
  decide +kernel

end Wire

end CacheClient

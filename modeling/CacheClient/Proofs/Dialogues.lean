import CacheClient.Proofs.Exchanges

namespace CacheClient

/-- All that can be done with a connection on loan, step by step, where each step may depend on what came
before it. -/
inductive Dialogue (α : Type) where
  | done (answer : Answer α)
  | write (bytes : Bytes) (next : Dialogue α)
  | flush (next : Except Fault Unit → Dialogue α)
  | readLine (next : Except Fault Bytes → Dialogue α)
  | readExact (n : Nat) (next : Except Fault Bytes → Dialogue α)
  | record (ok : Bool) (next : Dialogue α)
  | close (next : Dialogue α)
  /-- Looks how many bytes are unread, and whether the connection is healthy and open. -/
  | look (next : (unread : Nat) → (healthy isOpen : Bool) → Dialogue α)

namespace Dialogue

def run [Network σ] : Dialogue α → Link σ → Answer α × Link σ
  | done answer, link => (answer, link)
  | write bytes next, link => next.run (link.update (·.write bytes))
  | flush next, link =>
    let (sent, link) := link.flush
    (next sent).run link
  | readLine next, link =>
    let (line, link) := link.readLine
    (next line).run link
  | readExact n next, link =>
    let (block, link) := link.readExact n
    (next block).run link
  | record ok next, link => next.run (link.update (·.record ok))
  | close next, link => next.run link.close
  | look next, link =>
    let connection := link.connection
    (next connection.unread.length connection.healthy connection.isOpen).run link

def ask (text : Bytes) (next : Answer Bytes → Dialogue α) : Dialogue α :=
  .write text <| .flush fun
    | .error fault => next (.error fault.sending)
    | .ok () => .readLine fun line => next (line.mapError Fault.receiving)

def item (header : Reply.Header) : Dialogue Item :=
  .readExact (header.length + 2) fun
    | .error fault => .done (.error fault.receiving)
    | .ok bytes =>
      match Reply.block header.length bytes with
      | .error failure => .done (.error failure)
      | .ok value => .readLine fun
        | .error fault => .done (.error fault.receiving)
        | .ok line => .done ((Reply.trailer line).map fun _ => ⟨header.flags, value⟩)

end Dialogue

/-- The exchange of a command, as a dialogue. -/
def Command.dialogue : (command : Command) → Dialogue command.Value
  | .store verb key flags expiry payload =>
    .ask (Command.store verb key flags expiry payload).text fun line =>
      .done (line.bind (Reply.stored verb))
  | .delete key => .ask (Command.delete key).text fun line => .done (line.bind Reply.deleted)
  | .count verb key delta =>
    .ask (Command.count verb key delta).text fun line => .done (line.bind Reply.counted)
  | .get key => .ask (Command.get key).text fun
    | .error failure => .done (.error failure)
    | .ok line =>
      match Reply.header key line with
      | .error failure => .done (.error failure)
      | .ok header => .item header

namespace Dialogue

variable [Network σ]

theorem run_ask (text : Bytes) (next : Answer Bytes → Dialogue α) (link : Link σ) :
    (ask text next).run link =
      (next (link.update (·.write text)).ask.1).run (link.update (·.write text)).ask.2 := by
  simp only [ask, run, Link.ask]
  generalize (link.update (·.write text)).flush = flushed
  obtain ⟨fault | _, after⟩ := flushed <;> rfl

theorem run_item (header : Reply.Header) (link : Link σ) :
    (item header).run link = link.readItem header := by
  simp only [item, run, Link.readItem]
  generalize link.readExact (header.length + 2) = block
  obtain ⟨fault | bytes, after⟩ := block
  · rfl
  · dsimp only
    cases Reply.block header.length bytes with
    | error failure => rfl
    | ok value =>
      simp only [run]
      generalize after.readLine = line
      obtain ⟨fault | line, last⟩ := line <;> rfl

end Dialogue

theorem Command.run_dialogue [Network σ] (command : Command) (link : Link σ) :
    command.dialogue.run link = link.exchange command := by
  cases command with
  | store | delete | count =>
    rw [dialogue, Dialogue.run_ask]
    rfl
  | get key =>
    rw [dialogue, Dialogue.run_ask]
    show _ = link.get key
    rw [Link.get, Link.askFor]
    generalize (link.update (·.write (Command.get key).text)).ask = asked
    obtain ⟨failure | line, after⟩ := asked
    · rfl
    · dsimp only
      cases Reply.header key line with
      | error failure => rfl
      | ok header => exact Dialogue.run_item header after

section Mirrors

/-- Streams of one network and streams of another that are paired answer alike as long as the networks
are related, and what is asked of both keeps the networks related. -/
structure Wire.Mirrors [Network σ] [Network τ] (paired : Nat → Nat → Prop)
    (related : Wire σ → Wire τ → Prop) : Prop where
  read : ∀ {id other wire mirror}, paired id other → related wire mirror → ∀ room,
    (wire.read id room).1 = (mirror.read other room).1 ∧
      related (wire.read id room).2 (mirror.read other room).2
  write : ∀ {id other wire mirror}, paired id other → related wire mirror → ∀ bytes,
    (wire.write id bytes).1 = (mirror.write other bytes).1 ∧
      related (wire.write id bytes).2 (mirror.write other bytes).2
  close : ∀ {id other wire mirror}, paired id other → related wire mirror →
    related (wire.close id) (mirror.close other)

variable {paired : Nat → Nat → Prop} {related : Wire σ → Wire τ → Prop}
variable {link : Link σ} {twin : Link τ}

namespace Link

/-- Connections that differ in nothing but the stream, if they have one; then the streams are paired. -/
inductive Twins (paired : Nat → Nat → Prop) (related : Wire σ → Wire τ → Prop) :
    Link σ → Link τ → Prop where
  | opened {id other : Nat} {wire : Wire σ} {mirror : Wire τ} (streams : paired id other)
      (wires : related wire mirror) : Twins paired related
      ⟨⟨some id, unread, unsent, healthy⟩, wire⟩ ⟨⟨some other, unread, unsent, healthy⟩, mirror⟩
  | closed {wire : Wire σ} {mirror : Wire τ} (wires : related wire mirror) : Twins paired related
      ⟨⟨none, unread, unsent, healthy⟩, wire⟩ ⟨⟨none, unread, unsent, healthy⟩, mirror⟩

theorem Twins.wires (h : Twins paired related link twin) : related link.wire twin.wire := by
  cases h with
  | opened _ hw | closed hw => exact hw

theorem Twins.unread (h : Twins paired related link twin) :
    link.connection.unread = twin.connection.unread := by
  cases h <;> rfl

theorem Twins.update (h : Twins paired related link twin) (change : Connection → Connection)
    (hc : ∀ connection stream, change { connection with stream } =
      { change connection with stream }) :
    Twins paired related (link.update change) (twin.update change) := by
  cases h with
  | @opened unread unsent healthy id other _ _ hs hw =>
    have hchange := hc ⟨none, unread, unsent, healthy⟩
    rw [Link.update, Link.update, hchange (some id), hchange (some other)]
    exact .opened hs hw
  | @closed unread unsent healthy _ _ hw =>
    rw [Link.update, Link.update, hc ⟨none, unread, unsent, healthy⟩ none]
    exact .closed hw

variable [Network σ] [Network τ]

theorem Twins.flush (m : Wire.Mirrors paired related) (h : Twins paired related link twin) :
    link.flush.1 = twin.flush.1 ∧ Twins paired related link.flush.2 twin.flush.2 := by
  cases h with
  | closed hw => exact ⟨rfl, .closed hw⟩
  | @opened _ unsent _ _ _ _ _ hs hw =>
    simp only [Link.flush]
    split
    · exact ⟨rfl, .opened hs hw⟩
    · obtain ⟨hfault, hnext⟩ := m.write hs hw unsent
      exact ⟨by rw [hfault], .opened hs hnext⟩

theorem Twins.pull (m : Wire.Mirrors paired related) (h : Twins paired related link twin) :
    link.pull.1 = twin.pull.1 ∧ link.pull.2.1 = twin.pull.2.1 ∧
      Twins paired related link.pull.2.2 twin.pull.2.2 := by
  cases h with
  | closed hw => exact ⟨rfl, rfl, .closed hw⟩
  | opened hs hw =>
    obtain ⟨hdelivery, hnext⟩ := m.read hs hw Connection.readSize
    refine ⟨?_, ?_, .opened hs hnext⟩ <;> simp only [Link.pull, hdelivery]

theorem Twins.gather (m : Wire.Mirrors paired related) (h : Twins paired related link twin)
    (allowance missing : Nat) :
    (link.gather allowance missing).1 = (twin.gather allowance missing).1 ∧
      (link.gather allowance missing).2.1 = (twin.gather allowance missing).2.1 ∧
      Twins paired related (link.gather allowance missing).2.2
        (twin.gather allowance missing).2.2 := by
  induction allowance generalizing link twin missing with
  | zero => exact ⟨rfl, rfl, h⟩
  | succ allowance ih =>
    simp only [Link.gather]
    split
    · exact ⟨rfl, rfl, h⟩
    · obtain ⟨hbytes, hfault, hnext⟩ := h.pull m
      generalize link.pull = pulled at *
      generalize twin.pull = mirrored at *
      obtain ⟨bytes, fault, next⟩ := pulled
      obtain ⟨_, _, mirror⟩ := mirrored
      dsimp only at hbytes hfault hnext
      subst hbytes hfault
      cases fault with
      | some fault => exact ⟨rfl, rfl, hnext⟩
      | none =>
        obtain ⟨hmore, hfault, hlast⟩ := ih hnext (missing - bytes.length)
        exact ⟨congrArg (bytes ++ ·) hmore, hfault, hlast⟩

theorem Twins.awaitLine (m : Wire.Mirrors paired related) (h : Twins paired related link twin)
    (allowance scanned : Nat) :
    (link.awaitLine allowance scanned).1 = (twin.awaitLine allowance scanned).1 ∧
      Twins paired related (link.awaitLine allowance scanned).2
        (twin.awaitLine allowance scanned).2 := by
  induction allowance generalizing link twin scanned with
  | zero =>
    simp only [Link.awaitLine, h.unread]
    split <;> exact ⟨rfl, h⟩
  | succ allowance ih =>
    simp only [Link.awaitLine, h.unread]
    split
    · exact ⟨rfl, h⟩
    · split
      · exact ⟨rfl, h⟩
      · obtain ⟨hbytes, hfault, hnext⟩ := h.pull m
        generalize link.pull = pulled at *
        generalize twin.pull = mirrored at *
        obtain ⟨bytes, fault, next⟩ := pulled
        obtain ⟨_, _, mirror⟩ := mirrored
        dsimp only at hbytes hfault hnext
        subst hbytes hfault
        have hreceived := hnext.update (Connection.receive bytes) fun _ _ => rfl
        cases fault with
        | some fault => exact ⟨rfl, hreceived⟩
        | none => exact ih hreceived _

theorem Twins.readLine (m : Wire.Mirrors paired related) (h : Twins paired related link twin) :
    link.readLine.1 = twin.readLine.1 ∧
      Twins paired related link.readLine.2 twin.readLine.2 := by
  have hawait := h.awaitLine m (Connection.longestLine + 1 - twin.connection.unread.length) 0
  simp only [Link.readLine_eq, h.unread]
  generalize link.awaitLine _ 0 = awaited at *
  generalize twin.awaitLine _ 0 = mirrored at *
  obtain ⟨found, next⟩ := awaited
  obtain ⟨_, mirror⟩ := mirrored
  obtain ⟨hfound, hnext⟩ := hawait
  dsimp only at hfound hnext
  subst hfound
  cases found with
  | error fault => exact ⟨rfl, hnext⟩
  | ok offset =>
    exact ⟨by simp only [hnext.unread],
      hnext.update (Connection.consume (offset + 2)) fun _ _ => rfl⟩

theorem Twins.readExact (m : Wire.Mirrors paired related) (h : Twins paired related link twin)
    (n : Nat) : (link.readExact n).1 = (twin.readExact n).1 ∧
      Twins paired related (link.readExact n).2 (twin.readExact n).2 := by
  simp only [Link.readExact_eq, h.unread]
  split
  · exact ⟨rfl, h⟩
  · obtain ⟨hbytes, hfault, hnext⟩ := h.gather m (n - twin.connection.unread.length)
      (n - twin.connection.unread.length)
    generalize link.gather _ _ = gathered at *
    generalize twin.gather _ _ = mirrored at *
    obtain ⟨bytes, fault, next⟩ := gathered
    obtain ⟨_, _, mirror⟩ := mirrored
    dsimp only at hbytes hfault hnext
    subst hbytes hfault
    have hreceived := hnext.update (Connection.receive bytes) fun _ _ => rfl
    cases fault with
    | some fault => exact ⟨rfl, hreceived⟩
    | none =>
      exact ⟨by simp only [hreceived.unread],
        hreceived.update (Connection.consume n) fun _ _ => rfl⟩

theorem Twins.close (m : Wire.Mirrors paired related) (h : Twins paired related link twin) :
    Twins paired related link.close twin.close := by
  cases h with
  | closed hw => exact .closed hw
  | opened hs hw => exact .closed (m.close hs hw)

end Link

/-- A dialogue comes to the same on twins. -/
theorem Dialogue.run_twins [Network σ] [Network τ] (m : Wire.Mirrors paired related)
    (dialogue : Dialogue α) (h : Link.Twins paired related link twin) :
    (dialogue.run link).1 = (dialogue.run twin).1 ∧
      Link.Twins paired related (dialogue.run link).2 (dialogue.run twin).2 := by
  induction dialogue generalizing link twin with
  | done answer => exact ⟨rfl, h⟩
  | write bytes next ih => exact ih (h.update _ fun _ _ => rfl)
  | flush next ih =>
    obtain ⟨hsent, hnext⟩ := h.flush m
    simp only [run, hsent]
    exact ih _ hnext
  | readLine next ih =>
    obtain ⟨hline, hnext⟩ := h.readLine m
    simp only [run, hline]
    exact ih _ hnext
  | readExact n next ih =>
    obtain ⟨hblock, hnext⟩ := h.readExact m n
    simp only [run, hblock]
    exact ih _ hnext
  | record ok next ih => exact ih (h.update _ fun _ _ => rfl)
  | close next ih => exact ih (h.close m)
  | look next ih =>
    have hseen : link.connection.unread.length = twin.connection.unread.length ∧
        link.connection.healthy = twin.connection.healthy ∧
        link.connection.isOpen = twin.connection.isOpen := by
      cases h <;> exact ⟨rfl, rfl, rfl⟩
    obtain ⟨hunread, hhealthy, hopen⟩ := hseen
    simp only [run, hunread, hhealthy, hopen]
    exact ih _ _ _ h

end Mirrors

/-- Reads from a stream, writes to it and its close keep a property of the wire. -/
structure Wire.Preserves [Network σ] (id : Nat) (kept : Wire σ → Prop) : Prop where
  read : ∀ {wire}, kept wire → ∀ room, kept (wire.read id room).2
  write : ∀ {wire}, kept wire → ∀ bytes, kept (wire.write id bytes).2
  close : ∀ {wire}, kept wire → kept (wire.close id)

/-- What is kept by all that can be asked of a connection's stream is kept by a dialogue; and its
connection has that stream afterwards, or none. -/
theorem Dialogue.run_preserves [Network σ] {kept : Wire σ → Prop} {link : Link σ}
    (hp : ∀ id, link.connection.stream = some id → Wire.Preserves id kept) (hk : kept link.wire)
    (dialogue : Dialogue α) :
    kept (dialogue.run link).2.wire ∧
      ((dialogue.run link).2.connection.stream = link.connection.stream ∨
        (dialogue.run link).2.connection.stream = none) := by
  -- a network is its own mirror, as long as it has the property
  let paired (id other : Nat) : Prop := id = other ∧ link.connection.stream = some id
  let related (wire mirror : Wire σ) : Prop := wire = mirror ∧ kept wire
  have hmirrors : Wire.Mirrors paired related := by
    refine ⟨?_, ?_, ?_⟩
    · rintro id _ wire _ ⟨rfl, hs⟩ ⟨rfl, hk⟩ room
      exact ⟨rfl, rfl, (hp id hs).read hk room⟩
    · rintro id _ wire _ ⟨rfl, hs⟩ ⟨rfl, hk⟩ bytes
      exact ⟨rfl, rfl, (hp id hs).write hk bytes⟩
    · rintro id _ wire _ ⟨rfl, hs⟩ ⟨rfl, hk⟩
      exact ⟨rfl, (hp id hs).close hk⟩
  have htwins : Link.Twins paired related link link := by
    generalize hl : link = twin
    obtain ⟨⟨stream, unread, unsent, healthy⟩, wire⟩ := twin
    subst hl
    cases stream with
    | none => exact .closed ⟨rfl, hk⟩
    | some id => exact .opened ⟨rfl, rfl⟩ ⟨rfl, hk⟩
  obtain ⟨-, hafter⟩ := dialogue.run_twins hmirrors htwins
  refine ⟨hafter.wires.2, ?_⟩
  generalize (dialogue.run link).2 = after at *
  cases hafter with
  | opened hs => exact .inl hs.2.symm
  | closed => exact .inr rfl

end CacheClient

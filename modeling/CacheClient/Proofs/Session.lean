import CacheClient.Proofs.Exchanges
import CacheClient.Script

namespace CacheClient

/-- A command with what its exchange has answered. -/
abbrev Answered := (command : Command) × Answer command.Value

structure Turn where
  command : Command
  reply : Bytes
  answer : Answer command.Value
  means : Reply.Means command reply answer
  valid : Key.isValid command.key = true
  short : ∀ n, Bytes.lineEnd? reply = some n → n < Connection.longestLine

def Turn.answered (turn : Turn) : Answered :=
  ⟨turn.command, turn.answer⟩

theorem short_of_length {reply : Bytes} (hle : reply.length ≤ Connection.longestLine) :
    ∀ n, Bytes.lineEnd? reply = some n → n < Connection.longestLine :=
  fun _ hn => Nat.lt_of_lt_of_le (Bytes.lineEnd?_lt hn) hle

namespace Link

variable [Network σ]

def session : List Command → Link σ → List Answered × Link σ
  | [], link => ([], link)
  | command :: commands, link =>
    let (answer, link) := link.exchange command
    let (answers, link) := session commands link
    (⟨command, answer⟩ :: answers, link)

variable {id : Nat} {feed : Bytes → Wire σ → Prop} {link : Link σ}

/-- Before each exchange, what is unread and what is still to come begin with the replies that are
due. -/
theorem session_of_feed (hf : Wire.Feeds id feed)
    (hw : ∀ bytes text wire, feed bytes wire →
      ∃ next, wire.write id text = (none, next) ∧ feed bytes next)
    (turns : List Turn) (hs : link.connection.stream = some id)
    (hu : link.connection.unsent = []) (hb : feed bytes link.wire)
    (he : link.connection.unread ++ bytes = turns.flatMap Turn.reply ++ rest) :
    ∃ unread more next, link.session (turns.map Turn.command) =
        (turns.map Turn.answered, ⟨{ link.connection with unread }, next⟩) ∧
      feed more next ∧ unread ++ more = rest := by
  induction turns generalizing link bytes with
  | nil => exact ⟨link.connection.unread, bytes, link.wire, rfl, hb, he⟩
  | cons turn turns ih =>
    obtain ⟨written, hwrite, hb'⟩ := hw bytes turn.command.text link.wire hb
    rw [List.flatMap_cons, List.append_assoc] at he
    obtain ⟨unread, more, next, hx, hm, he'⟩ :=
      exchange_of_reply hf turn.means turn.valid turn.short hs hu hwrite hb' he
    obtain ⟨unread', more', last, hrest, hm', hend⟩ :=
      @ih ⟨{ link.connection with unread }, next⟩ more hs hu hm he'
    refine ⟨unread', more', last, ?_, hm', hend⟩
    simp [session, hx, hrest, Turn.answered]

end Link

namespace Stream

def undelivered (stream : Stream) : Bytes :=
  stream.reads.flatMap Piece.bytes

/-- The stream brings what it holds in pieces that are not empty, and it never faults before its end. -/
structure Smooth (stream : Stream) : Prop where
  pieces : ∀ piece ∈ stream.reads, piece.bytes ≠ [] ∧ piece.fault = none
  writes : ∀ fault ∈ stream.writes, fault = none

variable {stream : Stream}

theorem Smooth.read (hs : stream.Smooth) (hne : stream.undelivered ≠ []) :
    ∃ got next fits, stream.read Connection.readSize = (⟨got, none, fits⟩, next) ∧ got ≠ [] ∧
      stream.undelivered = got ++ next.undelivered ∧ next.Smooth := by
  obtain ⟨reads, writes⟩ := stream
  obtain ⟨hp, hw⟩ := hs
  cases reads with
  | nil => exact absurd rfl hne
  | cons piece pieces =>
    obtain ⟨hpiece, hfault⟩ := hp piece List.mem_cons_self
    have hrest : ∀ later ∈ pieces, later.bytes ≠ [] ∧ later.fault = none :=
      fun later hm => hp later (List.mem_cons_of_mem piece hm)
    have hgot : piece.bytes.take Connection.readSize ≠ [] := by
      simpa [Connection.readSize] using hpiece
    have hroom := List.length_take_le Connection.readSize piece.bytes
    have htake := List.take_append_drop Connection.readSize piece.bytes
    -- a piece larger than one read comes in parts, and stays first in line until it is through
    cases hleft : piece.bytes.drop Connection.readSize with
    | nil =>
      refine ⟨_, ⟨pieces, writes⟩, hroom, by simp [Stream.read, hleft, hfault], hgot, ?_, hrest, hw⟩
      rw [hleft, List.append_nil] at htake
      simp [undelivered, htake]
    | cons c left =>
      refine ⟨_, ⟨{ piece with bytes := c :: left } :: pieces, writes⟩, hroom,
        by simp [Stream.read, hleft], hgot, ?_, ?_, hw⟩
      · rw [hleft] at htake
        simp only [undelivered, List.flatMap_cons]
        rw [← List.append_assoc, htake]
      · intro later hm
        rcases List.mem_cons.mp hm with rfl | hm
        · exact ⟨List.cons_ne_nil c left, hfault⟩
        · exact hrest later hm

theorem Smooth.write (hs : stream.Smooth) : ∃ next, stream.write = (none, next) ∧ next.Smooth ∧
    next.undelivered = stream.undelivered := by
  obtain ⟨reads, writes⟩ := stream
  obtain ⟨hp, hw⟩ := hs
  cases writes with
  | nil => exact ⟨⟨reads, []⟩, rfl, ⟨hp, hw⟩, rfl⟩
  | cons fault faults =>
    obtain rfl := hw fault List.mem_cons_self
    exact ⟨⟨reads, faults⟩, rfl, ⟨hp, fun later hm => hw later (List.mem_cons_of_mem _ hm)⟩, rfl⟩

end Stream

namespace Script

theorem stream_setStream (id : Nat) (stream : Stream) (script : Script) :
    (script.setStream id stream).stream id = stream := by
  simp [Script.stream, setStream]

/-- The stream runs smoothly and holds these bytes. -/
def Holds (id : Nat) (bytes : Bytes) (wire : Wire Script) : Prop :=
  (wire.state.stream id).Smooth ∧ (wire.state.stream id).undelivered = bytes

theorem holds_feeds (id : Nat) : Wire.Feeds id (Holds id) := by
  rintro bytes wire ⟨hs, rfl⟩ hne
  obtain ⟨got, next, fits, hr, hg, he, hn⟩ := hs.read hne
  refine ⟨got, next.undelivered, { wire with
    state := wire.state.setStream id next
    journal := .read id got none :: wire.journal }, fits, ?_, hg, he, ?_, ?_⟩
  · simp [Wire.read, Network.read, Script.read, hr]
  · simpa [stream_setStream] using hn
  · simp [stream_setStream]

theorem holds_write (id : Nat) (bytes text : Bytes) (wire : Wire Script) (hh : Holds id bytes wire) :
    ∃ next, wire.write id text = (none, next) ∧ Holds id bytes next := by
  obtain ⟨hs, rfl⟩ := hh
  obtain ⟨next, hw, hn, he⟩ := hs.write
  refine ⟨{ wire with
    state := wire.state.setStream id next
    journal := .wrote id text none :: wire.journal }, ?_, ?_, ?_⟩
  · simp [Wire.write, Network.write, Script.write, hw]
  · simpa [stream_setStream] using hn
  · simpa [stream_setStream] using he

end Script

/-- The replies to the commands of a session may be cut into pieces in any way and may hold anything that
looks like a reply: each exchange returns what its own reply means, and exactly what follows the last
reply is left, unread or undelivered. -/
theorem session_in_step (turns : List Turn) (rest : Bytes) (id : Nat) (healthy : Bool)
    (wire : Wire Script) (smooth : (wire.state.stream id).Smooth)
    (brings : (wire.state.stream id).undelivered = turns.flatMap Turn.reply ++ rest) :
    let result := Link.session (turns.map Turn.command) ⟨⟨some id, [], [], healthy⟩, wire⟩
    result.1 = turns.map Turn.answered ∧
      result.2.connection.unread ++ (result.2.wire.state.stream id).undelivered = rest := by
  have hs : (Link.mk ⟨some id, [], [], healthy⟩ wire).connection.stream = some id := rfl
  obtain ⟨unread, more, next, hr, ⟨-, rfl⟩, he⟩ := Link.session_of_feed (Script.holds_feeds id)
    (Script.holds_write id) turns hs rfl ⟨smooth, brings⟩ rfl
  simp only [hr]
  exact ⟨trivial, he⟩

def awkwardTurns : List Turn :=
  let value := ascii "x\r\nEND\r\n"
  [⟨.get (ascii "a"),
      Reply.headerLine (ascii "a") (ascii "07") (ascii "8") [] ++ Bytes.crlf ++
        (value ++ Bytes.crlf ++ (ascii "END" ++ Bytes.crlf)),
      .ok ⟨7, value⟩, .found ⟨7, value⟩ rfl rfl (by decide) (.inl rfl), rfl,
      short_of_length (by decide)⟩,
    ⟨.count .incr (ascii "b") 1, ascii "41" ++ ascii "  " ++ Bytes.crlf, .ok 41,
      .counted 41 rfl (by simp [ascii, Bytes.space]), rfl, short_of_length (by decide)⟩]

def awkwardScript : Script where
  streams := [(0, ⟨[⟨ascii "VALUE a 07 8\r", none⟩, ⟨ascii "\nx\r\nEND\r", none⟩,
    ⟨ascii "\n\r\nEND\r\n41  \r", none⟩, ⟨ascii "\nSTORED", none⟩], [none]⟩)]

theorem awkward_session_in_step :
    let result := Link.session [.get (ascii "a"), .count .incr (ascii "b") 1]
      ⟨⟨some 0, [], [], true⟩, Wire.start awkwardScript⟩
    result.1 = [⟨.get (ascii "a"), .ok ⟨7, ascii "x\r\nEND\r\n"⟩⟩,
        ⟨.count .incr (ascii "b") 1, .ok 41⟩] ∧
      result.2.connection.unread ++ (result.2.wire.state.stream 0).undelivered = ascii "STORED" :=
  session_in_step awkwardTurns (ascii "STORED") 0 true (Wire.start awkwardScript)
    ⟨by decide, by decide⟩ (by decide)

end CacheClient

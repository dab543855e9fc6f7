import CacheClient.Proofs.Engine
import CacheClient.Proofs.Server

namespace CacheClient

/-- One stream as its server sees it. -/
structure Session where
  endpoint : Endpoint
  input : Bytes
  output : Bytes

/-- A network on which a server listens at every endpoint. Dials and writes succeed, and the replies come in
pieces of any size. -/
structure Cluster where
  tables : Endpoint → Table
  sessions : Nat → Session
  /-- How much each read brings, as far as there is that much to bring and room for it. -/
  cuts : Nat → Nat
  clock : Nat → Int64
  ticks : Nat

namespace Cluster

def accept (id : Nat) (endpoint : Endpoint) (cluster : Cluster) : Cluster :=
  { cluster with sessions := Function.update cluster.sessions id ⟨endpoint, [], []⟩ }

/-- The server of a stream takes in bytes and answers the requests that they complete. -/
def submit (id : Nat) (bytes : Bytes) (cluster : Cluster) : Cluster :=
  let session := cluster.sessions id
  let input := session.input ++ bytes
  let (replies, input, table) := Server.serve input.length input (cluster.tables session.endpoint)
  { cluster with
    tables := Function.update cluster.tables session.endpoint table
    sessions := Function.update cluster.sessions id
      { session with input, output := session.output ++ replies } }

/-- The size of the next piece, which is not empty if there is room for a byte. -/
def cut (room : Nat) (cluster : Cluster) : Nat :=
  min room (max 1 (cluster.cuts cluster.ticks))

def deliver (id room : Nat) (cluster : Cluster) : Delivery room × Cluster :=
  let session := cluster.sessions id
  let size := cluster.cut room
  (⟨session.output.take size, if session.output.isEmpty then some .deadline else none,
      Nat.le_trans (List.length_take_le _ _) (Nat.min_le_left _ _)⟩,
    { cluster with
      sessions := Function.update cluster.sessions id
        { session with output := session.output.drop size }
      ticks := cluster.ticks + 1 })

instance : Network Cluster where
  dial id endpoint _ cluster := (.opened, cluster.accept id endpoint)
  read id room cluster := cluster.deliver id room
  write id bytes cluster := (none, cluster.submit id bytes)
  close _ cluster := cluster
  abandon _ cluster := cluster
  now cluster := cluster.clock cluster.ticks

/-- Only the stream `id` has moved, and only by delivering: these bytes are still to come. -/
structure Sends (id : Nat) (endpoint : Endpoint) (start : Wire Cluster) (bytes : Bytes)
    (wire : Wire Cluster) : Prop where
  tables : wire.state.tables = start.state.tables
  session : wire.state.sessions id = ⟨endpoint, [], bytes⟩
  others : ∀ other, other ≠ id → wire.state.sessions other = start.state.sessions other
  opened : wire.opened = start.opened

variable {id : Nat} {endpoint : Endpoint} {start : Wire Cluster}

theorem sends_feeds : Wire.Feeds id (Sends id endpoint start) := by
  intro bytes wire hb hne
  let size := wire.state.cut Connection.readSize
  have hsize : 0 < size := by
    simp only [size, cut, Connection.readSize]
    omega
  have hfit : (bytes.take size).length ≤ Connection.readSize :=
    Nat.le_trans (List.length_take_le _ _) (Nat.min_le_left _ _)
  have hread : wire.read id Connection.readSize = (⟨bytes.take size, none, hfit⟩,
      (wire.read id Connection.readSize).2) := by
    have hempty : bytes.isEmpty = false := by simpa using hne
    simp [Wire.read, Network.read, deliver, hb.session, hempty, size]
  refine ⟨bytes.take size, bytes.drop size, _, hfit, hread, ?_, ?_, ?_⟩
  · simp only [ne_eq, List.take_eq_nil_iff, not_or]
    exact ⟨Nat.ne_of_gt hsize, hne⟩
  · exact (List.take_append_drop size bytes).symm
  · refine ⟨hb.tables, ?_, ?_, hb.opened⟩
    · simp [Wire.read, Network.read, deliver, hb.session, size]
    · intro other hother
      simpa [Wire.read, Network.read, deliver, hother] using hb.others other hother

/-- A written command has changed its server's table, and its reply is on the way. -/
theorem write_served {command : Command} {table : Table} (hk : Key.isValid command.key = true)
    (hs : start.state.sessions id = ⟨endpoint, [], []⟩) (ht : start.state.tables endpoint = table) :
    ∃ next, start.write id command.text = (none, next) ∧ next.opened = start.opened ∧
      next.state.tables = Function.update start.state.tables endpoint (table.run command).2 ∧
      next.state.sessions = Function.update start.state.sessions id
        ⟨endpoint, [], command.reply (table command.key)⟩ := by
  refine ⟨_, rfl, rfl, ?_, ?_⟩ <;>
    simp [submit, hs, ht, Server.serve_text hk table]

/-- A command on a stream with nothing under way is answered by its server's table, which changes as the
command says, and then there is nothing under way again. -/
theorem exchange_served {command : Command} {link : Link Cluster} {table : Table}
    (hk : Key.isValid command.key = true) (hc : link.connection = .fresh (some id))
    (hs : link.wire.state.sessions id = ⟨endpoint, [], []⟩)
    (ht : link.wire.state.tables endpoint = table)
    (hfit : ∀ item, table command.key = some item → item.value.length ≤ Reply.largestValue) :
    ∃ wire, link.exchange command = ((table.run command).1, ⟨link.connection, wire⟩) ∧
      wire.state.tables = Function.update link.wire.state.tables endpoint (table.run command).2 ∧
      wire.state.sessions = link.wire.state.sessions ∧ wire.opened = link.wire.opened := by
  obtain ⟨next, hw, hopened, htables, hsessions⟩ := write_served hk hs ht
  have hstream : link.connection.stream = some id := by rw [hc]; rfl
  have hunsent : link.connection.unsent = [] := by rw [hc]; rfl
  have hunread : link.connection.unread = [] := by rw [hc]; rfl
  have hsends : Sends id endpoint next (command.reply (table command.key)) next :=
    ⟨rfl, by simp [hsessions], fun _ _ => rfl, rfl⟩
  obtain ⟨unread, more, wire, hx, hm, hnil⟩ := Link.exchange_of_reply sends_feeds
    (command.reply_means hfit) hk (command.reply_short hk hfit) hstream hunsent hw hsends
    (show _ = _ ++ [] by rw [hunread, List.nil_append, List.append_nil])
  obtain ⟨rfl, rfl⟩ := List.append_eq_nil_iff.mp hnil
  refine ⟨wire, ?_, hm.tables.trans htables, ?_, hm.opened.trans hopened⟩
  · rw [hx, hc]
    rfl
  · funext other
    by_cases hother : other = id
    · rw [hother, hm.session, hs]
    · rw [hm.others other hother, hsessions, Function.update_of_ne hother]

end Cluster

end CacheClient

import CacheClient.Proofs.FlatReading

namespace CacheClient

open Connection (longestLine readSize)

/-- Bytes come in pieces after `seen` others. At some point they are more than the limit, but the line of
this size has not come with its end yet. -/
def Overruns (size seen : Nat) (pieces : List Bytes) : Prop :=
  ∃ count, longestLine < seen + (pieces.take count).flatten.length ∧
    seen + (pieces.take count).flatten.length < size + 2

section Overruns

variable {size seen : Nat} {piece : Bytes} {pieces : List Bytes}

theorem Overruns.here (hlong : longestLine < seen) (hopen : seen < size + 2) :
    Overruns size seen pieces :=
  ⟨0, hlong, hopen⟩

theorem overruns_cons : Overruns size seen (piece :: pieces) ↔
    (longestLine < seen ∧ seen < size + 2) ∨ Overruns size (seen + piece.length) pieces := by
  constructor
  · rintro ⟨count | count, hlong, hopen⟩
    · exact .inl ⟨hlong, hopen⟩
    · refine .inr ⟨count, ?_⟩
      rw [List.take_succ_cons, List.flatten_cons, List.length_append, ← Nat.add_assoc] at hlong hopen
      exact ⟨hlong, hopen⟩
  · rintro (⟨hlong, hopen⟩ | ⟨count, hlong, hopen⟩)
    · exact .here hlong hopen
    · refine ⟨count + 1, ?_⟩
      rw [List.take_succ_cons, List.flatten_cons, List.length_append, ← Nat.add_assoc]
      exact ⟨hlong, hopen⟩

theorem not_overruns_of_short (hshort : size < longestLine) : ¬ Overruns size seen pieces := by
  rintro ⟨count, hlong, hopen⟩
  omega

theorem not_overruns_of_end (hend : size + 2 ≤ seen) : ¬ Overruns size seen pieces := by
  rintro ⟨count, -, hopen⟩
  omega

theorem overruns_of_long (hlong : longestLine + readSize < size + 2) (hseen : seen ≤ longestLine)
    (hall : size + 2 ≤ seen + pieces.flatten.length)
    (hsizes : ∀ piece ∈ pieces, piece.length ≤ readSize) : Overruns size seen pieces := by
  induction pieces generalizing seen with
  | nil =>
    rw [List.flatten_nil, List.length_nil] at hall
    omega
  | cons piece pieces ih =>
    have hpiece := hsizes piece List.mem_cons_self
    rw [overruns_cons]
    refine .inr ?_
    by_cases hover : longestLine < seen + piece.length
    · exact .here hover (by omega)
    · apply ih (by omega)
      · rwa [List.flatten_cons, List.length_append, ← Nat.add_assoc] at hall
      · exact fun piece hm => hsizes piece (List.mem_cons_of_mem _ hm)

theorem overruns_of_stop (before after : List Bytes) (hlong : longestLine < before.flatten.length)
    (hopen : before.flatten.length < size + 2) : Overruns size 0 (before ++ after) := by
  refine ⟨before.length, ?_⟩
  rw [List.take_left, Nat.zero_add]
  exact ⟨hlong, hopen⟩

theorem not_overruns_of_leap (before : List Bytes) (last : Bytes)
    (hwithin : before.flatten.length ≤ longestLine)
    (hall : (before ++ [last]).flatten.length = size + 2) : ¬ Overruns size 0 (before ++ [last]) := by
  rintro ⟨count, hlong, hopen⟩
  rw [Nat.zero_add] at hlong hopen
  by_cases hcount : count ≤ before.length
  · have hpart : ((before ++ [last]).take count).flatten.length ≤ before.flatten.length := by
      rw [List.take_append_of_le_length hcount]
      conv => rhs; rw [← List.take_append_drop count before]
      rw [List.flatten_append, List.length_append]
      exact Nat.le_add_right ..
    omega
  · rw [List.take_of_length_le (by simp; omega)] at hopen
    omega

end Overruns

theorem Wire.Arrives.sizes [Network σ] {id : Nat} {ends : Wire σ → Prop} {pieces : List Bytes}
    {wire : Wire σ} (h : wire.Arrives id ends pieces) : ∀ piece ∈ pieces, piece.length ≤ readSize := by
  induction h with
  | done => simp
  | @piece _ fits _ _ _ _ _ _ ih =>
    rw [List.forall_mem_cons]
    exact ⟨fits, ih⟩

namespace Link

open Connection

variable [Network σ] {id : Nat} {link : Link σ} {pieces : List Bytes} {line rest : Bytes}

theorem awaitLine_over (hl : Bytes.IsLine link.connection.unread)
    (hlong : longestLine < link.connection.unread.length) (allowance : Nat)
    (hle : scanned ≤ link.connection.unread.length) :
    link.awaitLine allowance scanned = (.error .messageSize, link) := by
  have hscan : Bytes.IsLine (link.connection.unread.take scanned) := by
    intro hi
    exact hl (hi.trans (List.take_prefix _ _).isInfix)
  have hnone : Bytes.lineEndAfter (scanned - 1) link.connection.unread = none :=
    (Bytes.lineEndAfter_scanned hscan hle).trans (Bytes.lineEnd?_eq_none.mpr hl)
  unfold awaitLine
  cases allowance with
  | zero => simp only [hnone]
  | succ allowance => simp only [hnone, hlong, ↓reduceIte]

/-- The wait for a line ends when the line end is in view, or before that, when there is more in view than
the limit. -/
theorem awaitLine_limit {ends : Wire σ → Prop} (allowance scanned : Nat)
    (ha : link.wire.Arrives id ends pieces) (hs : link.connection.stream = some id)
    (hl : Bytes.IsLine line)
    (he : link.connection.unread ++ pieces.flatten = line ++ Bytes.crlf ++ rest)
    (hscan : Bytes.IsLine (link.connection.unread.take scanned))
    (hle : scanned ≤ link.connection.unread.length)
    (hallow : longestLine < allowance + link.connection.unread.length) :
    (Overruns line.length link.connection.unread.length pieces →
      (link.awaitLine allowance scanned).1 = .error .messageSize) ∧
    (¬ Overruns line.length link.connection.unread.length pieces →
      ∃ tail next, link.awaitLine allowance scanned = (.ok line.length,
        ⟨{ link.connection with unread := line ++ Bytes.crlf ++ tail }, next⟩)) := by
  generalize hw : link.wire = wire at ha
  -- on the pieces still to come, from any link that they may come to
  induction ha generalizing link allowance scanned with
  | done =>
    rw [List.flatten_nil] at he
    have hall := (List.append_nil link.connection.unread).symm.trans he
    have hn : Bytes.lineEnd? link.connection.unread = some line.length := by
      rw [hall]
      exact Bytes.lineEnd?_line hl rest
    obtain ⟨tail, hr, -⟩ := awaitLine_found hl he hscan hle hn allowance
    refine ⟨fun hover => absurd hover ?_, fun _ => ⟨tail, link.wire, hr⟩⟩
    apply not_overruns_of_end
    rw [hall, List.length_append, List.length_append]
    exact Nat.le_add_right ..
  | @piece got fits pieces wire next hread hgot hlater ih =>
    -- the search comes before the limit: a line whose end is in view is never given up
    cases hn : Bytes.lineEnd? link.connection.unread with
    | some n =>
      obtain ⟨tail, hr, -⟩ := awaitLine_found hl he hscan hle hn allowance
      refine ⟨fun hover => absurd hover ?_, fun _ => ⟨tail, link.wire, hr⟩⟩
      obtain ⟨line', tail', hu, hl', -⟩ := Bytes.lineEnd?_eq_some.mp hn
      rw [hu, List.append_assoc] at he
      obtain ⟨rfl, -⟩ := Bytes.line_unique hl' hl he
      apply not_overruns_of_end
      rw [hu, List.length_append, List.length_append]
      exact Nat.le_add_right ..
    | none =>
      have hopen := Bytes.lineEnd?_eq_none.mp hn
      have hlen := Bytes.length_le_of_isLine hopen he
      by_cases hlong : longestLine < link.connection.unread.length
      · rw [awaitLine_over hopen hlong allowance hle]
        exact ⟨fun _ => rfl, fun hnot => absurd (.here hlong (by omega)) hnot⟩
      · obtain ⟨allowance, rfl⟩ : ∃ left, allowance = left + 1 := ⟨allowance - 1, by omega⟩
        have hpos := List.length_pos_iff.mpr hgot
        have hempty : got.isEmpty = false := by simpa using hgot
        have hp : link.pull = (got, none, ⟨link.connection, next⟩) := by
          simp [pull, hs, hw, hread, hempty]
        rw [awaitLine_pull hscan hle hn (by omega) hp, overruns_cons]
        have hrest := @ih ⟨link.connection.receive got, next⟩ allowance link.connection.unread.length
          hs (by simpa [receive] using he) (by simpa [receive] using hopen) (by simp [receive])
          (by simp [receive]; omega) rfl
        have hview : (link.connection.receive got).unread.length =
            link.connection.unread.length + got.length := List.length_append
        rw [hview] at hrest
        simp only [hlong, false_and, false_or]
        exact hrest

theorem readLine_limit {ends : Wire σ → Prop} (ha : link.wire.Arrives id ends pieces)
    (hs : link.connection.stream = some id) (hu : link.connection.unread = [])
    (hl : Bytes.IsLine line) (he : pieces.flatten = line ++ Bytes.crlf ++ rest) :
    (Overruns line.length 0 pieces → link.readLine.1 = .error .messageSize) ∧
    (¬ Overruns line.length 0 pieces → link.readLine.1 = .ok line) := by
  have hawait := awaitLine_limit (longestLine + 1) 0 ha hs hl (by rw [hu]; exact he)
    (by simp [Bytes.IsLine, Bytes.crlf]) (Nat.zero_le _) (by omega)
  rw [hu] at hawait
  have hallowance : longestLine + 1 = longestLine + 1 - link.connection.unread.length := by
    rw [hu]
    rfl
  constructor
  · intro hover
    have hr := hawait.1 hover
    rw [hallowance] at hr
    rw [readLine_eq]
    split <;> rename_i ha <;> rw [ha] at hr
    · exact congrArg Except.error (Except.error.inj hr)
    · cases hr
  · intro hnot
    obtain ⟨tail, next, ha⟩ := hawait.2 hnot
    rw [hallowance] at ha
    rw [readLine_of_await ha]

/-- A connection on which these pieces come, one with each read, if none is larger than a read. -/
def scripted (pieces : List Bytes) : Link Script where
  connection := .fresh (some 0)
  wire := Wire.start { streams := [(0, { reads := pieces.map fun bytes => ⟨bytes, none⟩ })] }

end Link

theorem Script.arrives {id : Nat} {ends : Wire Script → Prop} (hends : ∀ wire, ends wire)
    (pieces : List Bytes) (hp : ∀ piece ∈ pieces, piece ≠ [] ∧ piece.length ≤ readSize)
    {wire : Wire Script} (hw : (wire.state.stream id).reads = pieces.map fun bytes => ⟨bytes, none⟩) :
    wire.Arrives id ends pieces := by
  induction pieces generalizing wire with
  | nil => exact .done (hends wire)
  | cons piece pieces ih =>
    obtain ⟨⟨hne, hfits⟩, hrest⟩ := List.forall_mem_cons.mp hp
    let later : Stream := { wire.state.stream id with
      reads := pieces.map fun bytes => ⟨bytes, none⟩ }
    have hread : (wire.state.stream id).read readSize = (⟨piece, none, hfits⟩, later) := by
      simp [Stream.read, hw, later, List.drop_of_length_le hfits, List.take_of_length_le hfits]
    have hwire : wire.read id readSize = (⟨piece, none, hfits⟩, { wire with
        state := wire.state.setStream id later
        journal := .read id piece none :: wire.journal }) := by
      simp [Wire.read, Network.read, Script.read, hread]
    exact .piece hwire hne (ih hrest (by rw [Script.stream_setStream]))

def Bytes.oneByOne (bytes : Bytes) : List Bytes :=
  bytes.map fun c => [c]

theorem Bytes.flatten_oneByOne (bytes : Bytes) : bytes.oneByOne.flatten = bytes := by
  induction bytes with
  | nil => rfl
  | cons c bytes ih => exact congrArg (c :: ·) ih

theorem Bytes.oneByOne_pieces (bytes : Bytes) :
    ∀ piece ∈ bytes.oneByOne, piece ≠ [] ∧ piece.length ≤ readSize := by
  intro piece hm
  obtain ⟨c, -, rfl⟩ := List.mem_map.mp hm
  exact ⟨List.cons_ne_nil c [], by simp [readSize]⟩

namespace Link

variable {line rest : Bytes} {pieces : List Bytes}

theorem scripted_limit (hl : Bytes.IsLine line)
    (hp : ∀ piece ∈ pieces, piece ≠ [] ∧ piece.length ≤ readSize)
    (he : pieces.flatten = line ++ Bytes.crlf ++ rest) :
    (Overruns line.length 0 pieces → (scripted pieces).readLine.1 = .error .messageSize) ∧
    (¬ Overruns line.length 0 pieces → (scripted pieces).readLine.1 = .ok line) := by
  have ha : (scripted pieces).wire.Arrives 0 (fun _ => True) pieces :=
    Script.arrives (fun _ => trivial) pieces hp rfl
  exact readLine_limit ha rfl rfl hl he

/-- A line whose length is at the limit, or so little beyond it that one piece can bring the difference and
the line end: cut one way it is read, cut another way it is not. -/
theorem cuts_disagree (hl : Bytes.IsLine line) (hlong : longestLine ≤ line.length)
    (hreach : line.length + 2 ≤ longestLine + readSize) :
    ∃ kept lost : List Bytes,
      (∀ piece ∈ kept ++ lost, piece ≠ [] ∧ piece.length ≤ readSize) ∧
      kept.flatten = line ++ Bytes.crlf ∧ lost.flatten = line ++ Bytes.crlf ∧
      (scripted kept).readLine.1 = .ok line ∧
      (scripted lost).readLine.1 = .error .messageSize := by
  let text := line ++ Bytes.crlf
  have hlen : text.length = line.length + 2 := List.length_append
  -- cut at the limit, so that the rest comes with the line end; and cut one byte later, so that a read stops there
  have hkept : (Bytes.oneByOne (text.take longestLine) ++ [text.drop longestLine]).flatten = text := by
    rw [List.flatten_append, Bytes.flatten_oneByOne, List.flatten_singleton, List.take_append_drop]
  have hlost : (Bytes.oneByOne (text.take (longestLine + 1)) ++
      Bytes.oneByOne (text.drop (longestLine + 1))).flatten = text := by
    rw [List.flatten_append, Bytes.flatten_oneByOne, Bytes.flatten_oneByOne, List.take_append_drop]
  have hkeptPieces : ∀ piece ∈ Bytes.oneByOne (text.take longestLine) ++ [text.drop longestLine],
      piece ≠ [] ∧ piece.length ≤ readSize := by
    intro piece hm
    rcases List.mem_append.mp hm with hm | hm
    · exact Bytes.oneByOne_pieces _ piece hm
    · obtain rfl := List.mem_singleton.mp hm
      rw [← List.length_pos_iff, List.length_drop]
      omega
  have hlostPieces : ∀ piece ∈ Bytes.oneByOne (text.take (longestLine + 1)) ++
      Bytes.oneByOne (text.drop (longestLine + 1)), piece ≠ [] ∧ piece.length ≤ readSize := by
    intro piece hm
    rcases List.mem_append.mp hm with hm | hm <;> exact Bytes.oneByOne_pieces _ piece hm
  refine ⟨_, _, ?_, hkept, hlost, ?_, ?_⟩
  · intro piece hm
    rcases List.mem_append.mp hm with hm | hm
    · exact hkeptPieces piece hm
    · exact hlostPieces piece hm
  · apply (scripted_limit hl hkeptPieces (hkept.trans (List.append_nil _).symm)).2
    apply not_overruns_of_leap
    · rw [Bytes.flatten_oneByOne, List.length_take]
      exact Nat.min_le_left ..
    · rw [hkept, hlen]
  · apply (scripted_limit hl hlostPieces (hlost.trans (List.append_nil _).symm)).1
    apply overruns_of_stop <;> rw [Bytes.flatten_oneByOne, List.length_take] <;> omega

end Link

/-- Whether a line is read or given up depends on how it is cut: it is given up if at some point there is
more than the limit in view and not yet the end of the line. So lines below the limit are read, and lines
that exceed it by more than a piece can bring are not, but for the lengths in between both can happen to
the same line. -/
theorem line_limit_on_view [Network σ] (id : Nat) (link : Link σ)
    (on_stream : link.connection.stream = some id) (empty : link.connection.unread = [])
    (line rest : Bytes) (whole : Bytes.IsLine line) (pieces : List Bytes)
    (arrives : link.wire.Arrives id (fun _ => True) pieces)
    (cut : pieces.flatten = line ++ Bytes.crlf ++ rest) :
    (Overruns line.length 0 pieces → link.readLine.1 = .error .messageSize) ∧
    (¬ Overruns line.length 0 pieces → link.readLine.1 = .ok line) ∧
    (line.length < longestLine → link.readLine.1 = .ok line) ∧
    (longestLine + readSize < line.length + 2 → link.readLine.1 = .error .messageSize) ∧
    (longestLine ≤ line.length → line.length + 2 ≤ longestLine + readSize →
      ∃ kept lost : List Bytes,
        (∀ piece ∈ kept ++ lost, piece ≠ [] ∧ piece.length ≤ readSize) ∧
        kept.flatten = line ++ Bytes.crlf ∧ lost.flatten = line ++ Bytes.crlf ∧
        (Link.scripted kept).readLine.1 = .ok line ∧
        (Link.scripted lost).readLine.1 = .error .messageSize) := by
  obtain ⟨hgiven, hread⟩ := Link.readLine_limit arrives on_stream empty whole cut
  refine ⟨hgiven, hread, ?_, ?_, Link.cuts_disagree whole⟩
  · intro hshort
    exact hread (not_overruns_of_short hshort)
  · intro hlong
    apply hgiven
    apply overruns_of_long hlong (Nat.zero_le _) _ arrives.sizes
    rw [cut, List.length_append, List.length_append, Nat.zero_add]
    exact Nat.le_add_right ..

def fullReads : List Bytes :=
  List.replicate 16 (List.replicate readSize 120)

theorem flatten_fullReads : fullReads.flatten = List.replicate longestLine 120 :=
  List.flatten_replicate_replicate

theorem fullReads_pieces : ∀ piece ∈ fullReads, piece ≠ [] ∧ piece.length ≤ readSize := by
  intro piece hm
  obtain rfl := List.eq_of_mem_replicate hm
  rw [← List.length_pos_iff, List.length_replicate]
  exact ⟨Nat.zero_lt_succ _, Nat.le_refl _⟩

theorem replicate_isLine (n : Nat) : Bytes.IsLine (List.replicate n 120) := by
  apply Bytes.isLine_of_not_mem
  intro hm
  cases List.eq_of_mem_replicate hm

/-- A line longer than the longest is read, since it comes with its end in one piece. -/
theorem overlong_line_kept :
    let line : Bytes := List.replicate (longestLine + 1) 120
    let pieces := fullReads ++ [ascii "x\r\n"]
    longestLine < line.length ∧ pieces.flatten = line ++ Bytes.crlf ++ [] ∧
      (Link.scripted pieces).readLine.1 = .ok line := by
  intro line pieces
  have hlen : line.length = longestLine + 1 := List.length_replicate
  have hcut : pieces.flatten = line ++ Bytes.crlf ++ [] := by
    show (fullReads ++ [ascii "x\r\n"]).flatten = _
    rw [List.flatten_append, flatten_fullReads, List.append_nil]
    show _ = List.replicate (longestLine + 1) 120 ++ Bytes.crlf
    rw [List.replicate_succ', List.append_assoc]
    rfl
  have hpieces : ∀ piece ∈ pieces, piece ≠ [] ∧ piece.length ≤ readSize := by
    intro piece hm
    rcases List.mem_append.mp hm with hm | hm
    · exact fullReads_pieces piece hm
    · obtain rfl := List.mem_singleton.mp hm
      simp [ascii, readSize]
  obtain ⟨-, hread, -⟩ := line_limit_on_view 0 (Link.scripted pieces) rfl rfl line [] (replicate_isLine _)
    pieces (Script.arrives (fun _ => trivial) pieces hpieces rfl) hcut
  refine ⟨by omega, hcut, hread ?_⟩
  apply not_overruns_of_leap
  · apply Nat.le_of_eq
    rw [flatten_fullReads, List.length_replicate]
  · rw [hcut, List.append_nil, List.length_append]
    rfl

/-- A line of just the longest length is given up, since half of its end comes alone. -/
theorem longest_line_lost :
    let line : Bytes := List.replicate longestLine 120
    let pieces := fullReads ++ [[13], [10]]
    Bytes.IsLine line ∧ line.length ≤ longestLine ∧ pieces.flatten = line ++ Bytes.crlf ∧
      (Link.scripted pieces).readLine.1 = .error .messageSize := by
  intro line pieces
  have hlen : line.length = longestLine := List.length_replicate
  have hcut : pieces.flatten = line ++ Bytes.crlf := by
    show (fullReads ++ [[13], [10]]).flatten = _
    rw [List.flatten_append, flatten_fullReads]
    rfl
  have hpieces : ∀ piece ∈ pieces, piece ≠ [] ∧ piece.length ≤ readSize := by
    intro piece hm
    rcases List.mem_append.mp hm with hm | hm
    · exact fullReads_pieces piece hm
    · have hone : piece.length = 1 := by
        simp only [List.mem_cons, List.not_mem_nil, or_false] at hm
        rcases hm with rfl | rfl <;> rfl
      rw [← List.length_pos_iff, hone]
      exact ⟨Nat.one_pos, Nat.succ_le_succ (Nat.zero_le _)⟩
  refine ⟨replicate_isLine _, Nat.le_of_eq hlen, hcut, ?_⟩
  apply (Link.scripted_limit (replicate_isLine _) hpieces (hcut.trans (List.append_nil _).symm)).1
  -- the last read but one ends between the two bytes of the line end
  have hstop : pieces = (fullReads ++ [[13]]) ++ [[10]] := (List.append_assoc fullReads [[13]] [[10]]).symm
  rw [hstop]
  apply overruns_of_stop <;>
    rw [List.flatten_append, flatten_fullReads, List.length_append, List.length_replicate]
  · exact Nat.lt_succ_self _
  · exact Nat.lt_succ_self _

end CacheClient

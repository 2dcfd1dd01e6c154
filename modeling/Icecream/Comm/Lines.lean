import Mathlib.Data.List.TakeWhile
import Icecream.Library.Pieces
import Icecream.Comm.Intake

/-!
# Lines on a text channel

A text channel delivers a line when a control character has arrived behind it. Control
characters are skipped behind a line that is taken, as far as they have arrived: what begins with
one later is an empty line.
-/

namespace Icecream.Comm

open Connection

/-- A text channel, with what has been read from it and the lines it has delivered. `blanks`
counts the reads that find nothing unread and begin with a control character. `endless` tells
that there has been a line whose length is not of 32 bits: the loop of `update_state` that
counts it does not end. -/
structure TextChannel where
  channel : Connection
  heard : Bytes
  blanks : ℕ
  endless : Bool
  lines : List Str

namespace TextChannel

variable (p : Platform)

/-- The lengths of the lines, and of their ends, are of 32 bits. -/
def countable (control : UInt8 → Bool) (s : Bytes) : Bool :=
  s.tails.all fun u => (u.takeWhile fun x => !control x).length < 2 ^ 32

/-- What is known of a read before it is made -/
def hear (r : TextChannel) (a : Arrival) : TextChannel :=
  let data := r.channel.arriving p a
  { r with
    heard := r.heard ++ data
    blanks := r.blanks + if r.channel.ch.pending = [] ∧ data.head?.any p.control then 1 else 0
    endless := r.endless || !countable p.control (r.channel.ch.pending ++ data) }

section

variable (onError : Connection → Connection)

def readABit (r : TextChannel) (a : Arrival) : TextChannel × Bool :=
  let read := r.channel.readABit p onError a
  ({ r.hear p a with channel := read.1 }, read.2)

def waitLoop : List Arrival → TextChannel → TextChannel × Bool
  | [], r => (r, r.channel.ch.hasMsg)
  | a :: as, r =>
    if r.channel.ch.hasMsg then (r, true)
    else
      let read := r.readABit p onError a
      if read.2 = false then ({ read.1 with channel := onError read.1.channel }, false)
      else waitLoop as read.1

def waitForMsg (r : TextChannel) (as : List Arrival) : TextChannel × Bool :=
  if r.channel.ch.instate = .error then (r, false)
  else waitLoop p onError (if as = [] then [⟨.nothing, []⟩] else as) r

/-- The line of a message -/
def lineOf : Option Msg → List Str
  | some (.text line) => [line]
  | _ => []

def getMsg (r : TextChannel) (eofAllowed : Bool) (as : List Arrival) : TextChannel :=
  let found := r.waitForMsg p onError as
  if found.2 then
    let taken := found.1.channel.takeMsg p onError eofAllowed
    { found.1 with channel := taken.2, lines := found.1.lines ++ lineOf taken.1 }
  else found.1

end

def next (r : TextChannel) : Op → Option TextChannel
  | .readABit a status => some (r.readABit p (setError p status) a).1
  | .getMsg eofAllowed as status => some (r.getMsg p (setError p status) eofAllowed as)
  | op => some { r with channel := (r.channel.perform p op).1 }

def system : Transition.System TextChannel Op where
  init r := ∃ version minimum sends status,
    r = ⟨create p version minimum true sends status, [], 0, false, []⟩
  next := next p

/-! ## The channel underneath -/

variable {p} {onError : Connection → Connection}

theorem waitLoop_channel (as : List Arrival) (r : TextChannel) :
    ((waitLoop p onError as r).1.channel, (waitLoop p onError as r).2) =
      Connection.waitLoop p onError as r.channel ∧
      (waitLoop p onError as r).1.lines = r.lines := by
  induction as generalizing r with
  | nil => exact ⟨rfl, rfl⟩
  | cons a as ih =>
    simp only [waitLoop, Connection.waitLoop]
    split
    · exact ⟨rfl, rfl⟩
    · have hrest := ih (r.readABit p onError a).1
      have hread : (r.readABit p onError a).2 = (r.channel.readABit p onError a).2 := rfl
      rw [hread]
      split
      · exact ⟨rfl, rfl⟩
      · exact hrest

/-- What is delivered is what the calls of the channel return. -/
theorem next_perform {r r' : TextChannel} {op : Op} (h : r.next p op = some r') :
    r'.channel = (r.channel.perform p op).1 ∧
      r'.lines = r.lines ++ lineOf (r.channel.perform p op).2.message := by
  cases op with
  | readABit a status =>
    obtain rfl := Option.some.inj h
    exact ⟨rfl, (List.append_nil _).symm⟩
  | sendMsg m blocking bulkOnly as sends status =>
    obtain rfl := Option.some.inj h
    exact ⟨rfl, (List.append_nil _).symm⟩
  | waitForProtocol as status =>
    obtain rfl := Option.some.inj h
    exact ⟨rfl, (List.append_nil _).symm⟩
  | getMsg eofAllowed as status =>
    obtain rfl := Option.some.inj h
    have hwait : ((r.waitForMsg p (setError p status) as).1.channel,
        (r.waitForMsg p (setError p status) as).2) =
          r.channel.waitForMsg p (setError p status) as ∧
        (r.waitForMsg p (setError p status) as).1.lines = r.lines := by
      rw [waitForMsg, Connection.waitForMsg]
      split
      · exact ⟨rfl, rfl⟩
      · exact waitLoop_channel _ r
    obtain ⟨hchannel, hlines⟩ := hwait
    simp only [getMsg, perform, Connection.getMsg, ← hchannel, ← hlines]
    split
    · exact ⟨rfl, rfl⟩
    · exact ⟨rfl, (List.append_nil _).symm⟩

/-! ## The line under way -/

theorem countable_suffix {control : UInt8 → Bool} {s u : Bytes} (h : countable control s = true)
    (hu : u <:+ s) : countable control u = true := by
  rw [countable, List.all_eq_true] at h ⊢
  intro v hv
  exact h v ((List.mem_tails _ _).mpr (((List.mem_tails _ _).mp hv).trans hu))

theorem countable_line {control : UInt8 → Bool} {w t : Bytes} {c : UInt8}
    (h : countable control (w ++ c :: t) = true) (hw : ∀ x ∈ w, control x = false)
    (hc : control c = true) : w.length < 2 ^ 32 := by
  rw [countable, List.all_eq_true] at h
  have hline := h (w ++ c :: t) ((List.mem_tails _ _).mpr (List.suffix_refl _))
  rwa [List.takeWhile_append_of_pos (fun x hx => by simp [hw x hx]),
    List.takeWhile_cons_of_neg (by simp [hc]), List.append_nil, decide_eq_true_eq] at hline

/-- No control character is unread, or the first one ends the line under way. -/
structure Reads (control : UInt8 → Bool) (ch : MsgChannel) : Prop extends MsgChannel.Cursors ch where
  countable : countable control ch.pending = true
  state : ch.instate = .needLen ∧ (∀ x ∈ ch.pending, control x = false) ∨
    ch.instate = .hasMsg ∧ ∃ w c t, ch.pending = w ++ c :: t ∧ (∀ x ∈ w, control x = false) ∧
      control c = true ∧ ch.inmsglen.toNat = w.length

theorem needLine_reads (ch : MsgChannel) (hc : ch.Cursors)
    (hcount : countable p.control ch.pending = true) (hs : ch.instate = .needLen) :
    Reads p.control (needLine p ch) ∧ (needLine p ch).pending = ch.pending := by
  rw [needLine, if_pos hs]
  cases hfind : ch.pending.findIdx? p.control with
  | none =>
    have hnone := List.findIdx?_eq_none_iff.mp hfind
    exact ⟨⟨⟨hc.order, hc.inside⟩, hcount, .inl ⟨hs, hnone⟩⟩, rfl⟩
  | some i =>
    obtain ⟨w, c, t, hsplit, hw, hcontrol, hlen⟩ := Pieces.findIdx?_split hfind
    have hfits : w.length < 2 ^ 32 := countable_line (hsplit ▸ hcount) hw hcontrol
    refine ⟨⟨⟨hc.order, hc.inside⟩, hcount, .inr ⟨rfl, w, c, t, hsplit, hw, hcontrol, ?_⟩⟩, rfl⟩
    rw [← hlen]
    exact Word.ofNat_toNat_of_lt hfits

/-- A line that is there stays as it is when more arrives behind it. -/
theorem needLine_stays {ch : MsgChannel} (hs : ch.instate ≠ .needLen) : needLine p ch = ch := by
  rw [needLine, if_neg hs]

theorem received_pending {c : Connection} (hc : c.ch.Cursors) (a : Arrival) :
    (c.received p a).ch.pending = c.ch.pending ++ c.arriving p a := by
  have hmoved := MsgChannel.makeRoom_moved p.junk hc
  have hroom := arriving_fits (p := p) a hc
  have harrive := MsgChannel.arrive_pending hmoved.cursors hroom
  rw [hmoved.pending] at harrive
  exact harrive

/-- After a read that does not fail -/
theorem received_reads {c : Connection} (h : Reads p.control c.ch) (a : Arrival)
    (hcount : countable p.control (c.ch.pending ++ c.arriving p a) = true) :
    Reads p.control (needLine p (c.received p a).ch) ∧
      (needLine p (c.received p a).ch).pending = c.ch.pending ++ c.arriving p a := by
  have hc := MsgChannel.fill_cursors p.junk h.toCursors a.read
  have hpending := received_pending (p := p) h.toCursors a
  have hmoved := MsgChannel.makeRoom_moved p.junk h.toCursors
  have hsame : (c.received p a).ch.instate = c.ch.instate := hmoved.instate
  have hlen : (c.received p a).ch.inmsglen = c.ch.inmsglen := hmoved.inmsglen
  have hcounted : countable p.control (c.received p a).ch.pending = true := by
    rw [hpending]
    exact hcount
  rcases h.state with ⟨hneed, -⟩ | ⟨hmsg, w, x, t, hsplit, hw, hx, hn⟩
  · obtain ⟨hreads, hkept⟩ := needLine_reads (p := p) _ hc hcounted (hsame.trans hneed)
    exact ⟨hreads, hkept.trans hpending⟩
  · have hstate : (c.received p a).ch.instate = .hasMsg := hsame.trans hmsg
    rw [needLine_stays (by rw [hstate]; exact nofun)]
    refine ⟨⟨hc, hcounted, .inr ⟨hstate, w, x, t ++ c.arriving p a, ?_, hw, hx, ?_⟩⟩, hpending⟩
    · rw [hpending, hsplit, List.append_assoc, List.cons_append]
    · rw [hlen, hn]

/-- Taking a line consumes it and the control characters that are there behind it. -/
theorem takeLine_reads {c : Connection} (h : Reads p.control c.ch) (hmsg : c.ch.instate = .hasMsg)
    (htext : c.textBased = true) (m : Msg) :
    ∃ cs, cs ≠ [] ∧ (∀ x ∈ (c.takeLine p).1, p.control x = false) ∧
      (∀ x ∈ cs, p.control x = true) ∧
      c.ch.pending = (c.takeLine p).1 ++ (cs ++ (deliver p m (c.takeLine p).2).2.ch.pending) ∧
      Reads p.control (deliver p m (c.takeLine p).2).2.ch ∧
      (deliver p m (c.takeLine p).2).2.ch.pending.head?.any p.control = false := by
  rcases h.state with ⟨hneed, -⟩ | ⟨-, w, x, t, hsplit, hw, hx, hn⟩
  · rw [hmsg] at hneed
    cases hneed
  · have hline : (c.takeLine p).1 = w := by
      rw [takeLine, hn, hsplit, List.take_left]
    have hrest : c.ch.pending.drop c.ch.inmsglen.toNat = x :: t := by
      rw [hn, hsplit, List.drop_left]
    set cs := (x :: t).takeWhile p.control with hcs
    have hjoin : cs ++ (x :: t).dropWhile p.control = x :: t := List.takeWhile_append_dropWhile
    have hcount : w.length + cs.length ≤ c.ch.inofs - c.ch.intogo := by
      rw [← h.toCursors.pending_length, hsplit, ← hjoin, List.length_append, List.length_append]
      omega
    obtain ⟨hcursors, hpending⟩ := MsgChannel.skip_pending h.toCursors hcount
    have hdrop : c.ch.pending.drop (w.length + cs.length) = (x :: t).dropWhile p.control := by
      rw [hsplit, ← List.drop_drop, List.drop_left]
      conv_lhs => rw [← hjoin]
      exact List.drop_left
    have hleft : (c.takeLine p).2 = { c with ch := { c.ch with
        intogo := c.ch.intogo + (w.length + cs.length) } } := by
      rw [takeLine]
      dsimp only
      rw [hrest, hn, Nat.add_assoc]
    have htaken : MsgChannel.pending { c.ch with intogo := c.ch.intogo + (w.length + cs.length) } =
        (x :: t).dropWhile p.control := hpending.trans hdrop
    obtain ⟨hreads, hkept⟩ := needLine_reads (p := p)
      { c.ch with intogo := c.ch.intogo + (w.length + cs.length), instate := .needLen }
      ⟨hcursors.order, hcursors.inside⟩ (by
        change countable p.control (MsgChannel.pending { c.ch with
          intogo := c.ch.intogo + (w.length + cs.length) }) = true
        rw [hpending]
        exact countable_suffix h.countable (List.drop_suffix _ _)) rfl
    have hdeliver : (deliver p m (c.takeLine p).2).2.ch = needLine p { c.ch with
        intogo := c.ch.intogo + (w.length + cs.length), instate := .needLen } := by
      rw [hleft]
      simp only [deliver, Connection.advance, htext, if_true]
    have hafter : (deliver p m (c.takeLine p).2).2.ch.pending = (x :: t).dropWhile p.control := by
      rw [hdeliver, hkept]
      exact htaken
    refine ⟨cs, ?_, hline ▸ hw, ?_, ?_, hdeliver ▸ hreads, ?_⟩
    · rw [hcs, List.takeWhile_cons_of_pos hx]
      exact List.cons_ne_nil _ _
    · exact fun y hy => List.mem_takeWhile_imp hy
    · rw [hafter, hjoin, hline, hsplit]
    · rw [hafter]
      cases hd : (x :: t).dropWhile p.control with
      | nil => rfl
      | cons y ys =>
        have hhead := List.head_dropWhile_not p.control (l := x :: t) (by
          rw [hd]
          exact List.cons_ne_nil _ _)
        simp only [hd, List.head_cons] at hhead
        simp [hhead]

/-! ## What has been delivered -/

/-- An empty line is on its way. -/
def waiting (p : Platform) (s : Bytes) : ℕ := if s.head?.any p.control then 1 else 0

theorem waiting_none {s : Bytes} (h : ∀ x ∈ s, p.control x = false) : waiting p s = 0 := by
  cases s with
  | nil => rfl
  | cons x s =>
    have hx := h x List.mem_cons_self
    simp [waiting, hx]

theorem waiting_line {w cs : Bytes} (hw : ∀ x ∈ w, p.control x = false) (hne : cs ≠ [])
    (hcs : ∀ x ∈ cs, p.control x = true) (t : Bytes) :
    waiting p (w ++ (cs ++ t)) = [w].count [] := by
  cases w with
  | nil =>
    obtain ⟨c, cs, rfl⟩ := List.exists_cons_of_ne_nil hne
    have hc := hcs c List.mem_cons_self
    simp [waiting, hc]
  | cons x w =>
    have hx := hw x List.mem_cons_self
    simp [waiting, hx]

/-- Outside ERROR: the lines that have been taken, and what is left of what has been read. -/
structure Calm (p : Platform) (r : TextChannel) : Prop where
  text : r.channel.textBased = true
  settled : r.channel.needProto = false
  reads : Reads p.control r.channel.ch
  taken : ∃ before, r.heard = before ++ r.channel.ch.pending ∧
    ∀ s, Pieces.pieces p.control (before ++ s) =
      r.lines.flatMap Pieces.nonempty ++ Pieces.pieces p.control s
  blanks : r.lines.count [] + waiting p r.channel.ch.pending = r.blanks

structure Heard (p : Platform) (r : TextChannel) : Prop where
  lines : r.lines.flatMap Pieces.nonempty <+: Pieces.pieces p.control r.heard
  blanks : r.lines.count [] ≤ r.blanks
  calm : r.channel.ch.instate ≠ .error → Calm p r

theorem Calm.heard {r : TextChannel} (h : Calm p r) : Heard p r where
  lines := by
    obtain ⟨before, hheard, hpieces⟩ := h.taken
    rw [hheard, hpieces]
    exact List.prefix_append _ _
  blanks := by
    rw [← h.blanks]
    exact Nat.le_add_right _ _
  calm _ := h

/-- In ERROR, nothing more is delivered. -/
theorem Heard.fail {r r' : TextChannel} (h : Heard p r) (hlines : r'.lines = r.lines)
    (hheard : r.heard <+: r'.heard) (hblanks : r.blanks ≤ r'.blanks)
    (herror : r'.channel.ch.instate = .error) : Heard p r' where
  lines := by
    obtain ⟨data, hdata⟩ := hheard
    rw [hlines, ← hdata]
    exact h.lines.trans (Pieces.pieces_prefix _ _)
  blanks := by
    rw [hlines]
    exact h.blanks.trans hblanks
  calm hcalm := absurd herror hcalm

/-- A call that neither reads nor takes a line -/
theorem Heard.aside {r : TextChannel} (h : Heard p r) {c : Connection}
    (herror : r.channel.ch.instate = .error → c.ch.instate = .error)
    (hcalm : Calm p r → c.ch.instate = .error ∨ ∃ out wire,
      c = { r.channel with out := out, wire := wire }) : Heard p { r with channel := c } := by
  have hfails : c.ch.instate = .error → Heard p { r with channel := c } := fun hc =>
    h.fail rfl (List.prefix_refl _) le_rfl hc
  by_cases hstate : r.channel.ch.instate = .error
  · exact hfails (herror hstate)
  · rcases hcalm (h.calm hstate) with hc | ⟨out, wire, rfl⟩
    · exact hfails hc
    · have hkept := h.calm hstate
      exact Calm.heard ⟨hkept.text, hkept.settled, hkept.reads, hkept.taken, hkept.blanks⟩

/-! ## Reading -/

section

variable (hend : ∀ c, (onError c).ch.instate = .error)

include hend

theorem readABit_heard {r : TextChannel} (h : Heard p r) (a : Arrival)
    (hends : (r.readABit p onError a).1.endless = false) :
    Heard p (r.readABit p onError a).1 := by
  have hcount : countable p.control (r.channel.ch.pending ++ r.channel.arriving p a) = true := by
    have hboth := (Bool.or_eq_false_iff.mp hends).2
    simpa using hboth
  by_cases hstate : (r.readABit p onError a).1.channel.ch.instate = .error
  · exact h.fail rfl (List.prefix_append _ _) (Nat.le_add_right _ _) hstate
  · obtain ⟨herror, hread⟩ := readABit_goes hend hstate
    have hcalm := h.calm herror
    have htext : (r.channel.received p a).textBased = true := hcalm.text
    obtain ⟨hreads, hpending⟩ := received_reads hcalm.reads a hcount
    have hchannel : (r.readABit p onError a).1.channel =
        { r.channel.received p a with ch := needLine p (r.channel.received p a).ch } := by
      change (r.channel.readABit p onError a).1 = _
      rw [hread, updateState_received herror hcalm.settled, advance, if_pos htext]
    refine Calm.heard ⟨?_, ?_, ?_, ?_, ?_⟩
    · rw [hchannel]
      exact hcalm.text
    · rw [hchannel]
      exact hcalm.settled
    · rw [hchannel]
      exact hreads
    · obtain ⟨before, hheard, hpieces⟩ := hcalm.taken
      refine ⟨before, ?_, hpieces⟩
      rw [hchannel, hpending, ← List.append_assoc, ← hheard]
      rfl
    · rw [hchannel, hpending]
      have hblanks := hcalm.blanks
      change r.lines.count [] + waiting p (r.channel.ch.pending ++ r.channel.arriving p a) =
        r.blanks + if r.channel.ch.pending = [] ∧ (r.channel.arriving p a).head?.any p.control then 1
          else 0
      cases hunread : r.channel.ch.pending with
      | nil =>
        rw [hunread] at hblanks
        have hnone : waiting p [] = 0 := rfl
        simp only [List.nil_append, true_and]
        exact congrArg (· + waiting p (r.channel.arriving p a)) hblanks
      | cons x s =>
        rw [hunread] at hblanks
        rw [if_neg (by simp)]
        exact hblanks

/-- What is known of a run of calls -/
def Follows (p : Platform) (r r' : TextChannel) : Prop :=
  r'.endless = false → r.endless = false ∧ (Heard p r → Heard p r')

theorem readABit_follows (r : TextChannel) (a : Arrival) :
    Follows p r (r.readABit p onError a).1 := fun hends =>
  ⟨(Bool.or_eq_false_iff.mp hends).1, fun h => readABit_heard hend h a hends⟩

theorem waitLoop_follows (as : List Arrival) (r : TextChannel) :
    Follows p r (waitLoop p onError as r).1 := by
  induction as generalizing r with
  | nil => exact fun hends => ⟨hends, id⟩
  | cons a as ih =>
    have hread := readABit_follows (p := p) hend r a
    simp only [waitLoop]
    split_ifs
    · exact fun hends => ⟨hends, id⟩
    · intro hends
      obtain ⟨hbefore, hheard⟩ := hread hends
      refine ⟨hbefore, fun h => (hheard h).fail rfl (List.prefix_refl _) le_rfl (hend _)⟩
    · intro hends
      obtain ⟨hbetween, hrest⟩ := ih (r.readABit p onError a).1 hends
      obtain ⟨hbefore, hheard⟩ := hread hbetween
      exact ⟨hbefore, fun h => hrest (hheard h)⟩

theorem takeMsg_heard {r : TextChannel} (h : Heard p r) (eofAllowed : Bool) :
    Heard p { r with
      channel := (r.channel.takeMsg p onError eofAllowed).2
      lines := r.lines ++ lineOf (r.channel.takeMsg p onError eofAllowed).1 } := by
  have hnone : lineOf none = [] := rfl
  have hfails : ∀ c : Connection, c.ch.instate = .error →
      Heard p { r with channel := c, lines := r.lines ++ lineOf none } := fun c herror =>
    h.fail (by rw [hnone, List.append_nil]) (List.prefix_refl _) le_rfl herror
  rw [takeMsg]
  cases heof : r.channel.ch.atEof with
  | true =>
    rw [if_pos rfl]
    cases eofAllowed with
    | true =>
      rw [hnone, List.append_nil]
      exact h
    | false => exact hfails _ (hend _)
  | false =>
    rw [if_neg Bool.false_ne_true]
    cases hhas : r.channel.ch.hasMsg with
    | false => exact hfails _ (hend _)
    | true =>
      have hstate := taken heof hhas
      have hcalm := h.calm (by simp [hstate])
      rw [if_neg (by simp), if_pos hcalm.text]
      obtain ⟨cs, hne, hline, hcontrol, hsplit, hreads, hhead⟩ :=
        takeLine_reads hcalm.reads hstate hcalm.text (.text (r.channel.takeLine p).1)
      refine Calm.heard ⟨hcalm.text, hcalm.settled, hreads, ?_, ?_⟩
      · obtain ⟨before, hheard, hpieces⟩ := hcalm.taken
        refine ⟨before ++ ((r.channel.takeLine p).1 ++ cs), ?_, fun s => ?_⟩
        · rw [hheard, hsplit, List.append_assoc, List.append_assoc]
        · rw [List.append_assoc, hpieces, List.append_assoc,
            Pieces.pieces_taken hline hne hcontrol, ← List.append_assoc, List.flatMap_append]
          congr 2
          exact (List.append_nil _).symm
      · have hblanks := hcalm.blanks
        rw [hsplit, waiting_line hline hne hcontrol] at hblanks
        have hnext : waiting p
            (deliver p (.text (r.channel.takeLine p).1) (r.channel.takeLine p).2).2.ch.pending = 0 := by
          rw [waiting, hhead]
          rfl
        rw [List.count_append, hnext, Nat.add_zero]
        exact hblanks

/-! ## The calls -/

theorem waitForMsg_follows (as : List Arrival) (r : TextChannel) :
    Follows p r (r.waitForMsg p onError as).1 := by
  rw [waitForMsg]
  split
  · exact fun hends => ⟨hends, id⟩
  · exact waitLoop_follows hend _ r

theorem getMsg_follows (eofAllowed : Bool) (as : List Arrival) (r : TextChannel) :
    Follows p r (r.getMsg p onError eofAllowed as) := by
  have hwait := waitForMsg_follows (p := p) hend as r
  simp only [getMsg]
  split
  · intro hends
    obtain ⟨hbefore, hheard⟩ := hwait hends
    exact ⟨hbefore, fun h => takeMsg_heard hend (hheard h) eofAllowed⟩
  · exact hwait

/-- On a text channel, nothing is waited for before a message is sent. -/
theorem sendMsg_calm {c : Connection} (hover : c.needProto = false) (m : Msg)
    (blocking bulkOnly : Bool) (as : List Arrival) (sends : List SendEvent) :
    (c.sendMsg p onError m blocking bulkOnly as sends).1.ch.instate = .error ∨
      ∃ out wire, (c.sendMsg p onError m blocking bulkOnly as sends).1 =
        { c with out := out, wire := wire } := by
  rw [sendMsg]
  split
  · next herror => exact .inl herror
  · rw [hover]
    simp only [Bool.false_eq_true, if_false, Bool.true_eq_false]
    split
    · exact .inr ⟨_, _, rfl⟩
    · rw [flushWritebuf]
      dsimp only
      split
      · exact .inr ⟨_, _, rfl⟩
      · exact .inl (hend _)

end

theorem waitForProtocol_calm {c : Connection} (hover : c.needProto = false) (as : List Arrival) :
    (c.waitForProtocol p onError as).1 = c := by
  rw [waitForProtocol]
  split
  · rfl
  · cases as with
    | nil => simp [protocolLoop, hover]
    | cons a as => simp [protocolLoop, hover]

theorem next_follows {r r' : TextChannel} {op : Op} (h : r.next p op = some r') :
    Follows p r r' := by
  cases op with
  | readABit a status =>
    obtain rfl := Option.some.inj h
    exact readABit_follows (setError_error status) r a
  | getMsg eofAllowed as status =>
    obtain rfl := Option.some.inj h
    exact getMsg_follows (setError_error status) eofAllowed as r
  | sendMsg m blocking bulkOnly as sends status =>
    obtain rfl := Option.some.inj h
    refine fun hends => ⟨hends, fun h => h.aside (fun herror => ?_) (fun hcalm => ?_)⟩
    · exact (perform_error herror (.sendMsg m blocking bulkOnly as sends status)).1
    · exact sendMsg_calm (setError_error status) hcalm.settled m blocking bulkOnly as sends
  | waitForProtocol as status =>
    obtain rfl := Option.some.inj h
    refine fun hends => ⟨hends, fun h => h.aside (fun herror => ?_) (fun hcalm => ?_)⟩
    · exact (perform_error herror (.waitForProtocol as status)).1
    · exact .inr ⟨_, _, waitForProtocol_calm hcalm.settled as⟩

/-- A text channel that has read nothing yet -/
theorem created_heard (version minimum : ℕ) (sends : List SendEvent) (status : List Arrival) :
    Heard p ⟨create p version minimum true sends status, [], 0, false, []⟩ := by
  have hnone : (create p version minimum true sends status).ch.pending = [] := by
    simp [create, MsgChannel.pending, Block.slice]
  refine Calm.heard ⟨rfl, rfl, ⟨⟨le_rfl, Nat.zero_le _⟩, ?_, .inl ⟨rfl, ?_⟩⟩, ⟨[], ?_, ?_⟩, ?_⟩
  · rw [hnone]
    rfl
  · rw [hnone]
    simp
  · rw [hnone]
    rfl
  · exact fun s => rfl
  · rw [hnone]
    rfl

theorem reachable_heard {r : TextChannel} (h : (system p).Reachable r)
    (hends : r.endless = false) : Heard p r := by
  induction h with
  | init hinit =>
    obtain ⟨version, minimum, sends, status, rfl⟩ := hinit
    exact created_heard version minimum sends status
  | step op _ _ hnext ih =>
    obtain ⟨hbefore, hkept⟩ := next_follows hnext hends
    exact hkept (ih hbefore)

/-- The empty lines are all that is delivered too much. -/
theorem delivered_iff {r : TextChannel} (h : Heard p r) (hstate : r.channel.ch.instate = .needLen) :
    r.lines = Pieces.pieces p.control r.heard ↔ r.blanks = 0 := by
  have hcalm := h.calm (by rw [hstate]; exact nofun)
  have hunread : ∀ x ∈ r.channel.ch.pending, p.control x = false := by
    rcases hcalm.reads.state with ⟨-, hunread⟩ | ⟨hmsg, -⟩
    · exact hunread
    · rw [hstate] at hmsg
      cases hmsg
  obtain ⟨before, hheard, hpieces⟩ := hcalm.taken
  have hall : Pieces.pieces p.control r.heard = r.lines.flatMap Pieces.nonempty := by
    rw [hheard, hpieces, Pieces.pieces_none hunread, List.append_nil]
  have hblanks : r.lines.count [] = r.blanks := by
    rw [← hcalm.blanks, waiting_none hunread, Nat.add_zero]
  rw [← hblanks, List.count_eq_zero]
  constructor
  · intro hlines
    rw [hlines]
    exact Pieces.nil_notMem_pieces r.heard
  · intro hnone
    rw [hall, Pieces.flatMap_nonempty hnone]

/-- However what is read is split: what has been delivered are the first of the lines, and once
nothing is left to be taken it is all of them, unless a read that finds nothing unread begins
with a control character. -/
theorem lines_delivered {r : TextChannel} (h : (system p).Reachable r) (hends : r.endless = false) :
    (r.blanks = 0 → r.lines <+: Pieces.pieces p.control r.heard) ∧
      (r.channel.ch.instate = .needLen →
        (r.lines = Pieces.pieces p.control r.heard ↔ r.blanks = 0)) := by
  have hheard := reachable_heard h hends
  refine ⟨fun hblanks => ?_, delivered_iff hheard⟩
  have hnone : [] ∉ r.lines := List.count_eq_zero.mp
    (Nat.le_zero.mp (hblanks ▸ hheard.blanks))
  rw [← Pieces.flatMap_nonempty hnone]
  exact hheard.lines

def opened : TextChannel := ⟨create plain 45 21 true [] [], [], 0, false, []⟩

theorem opened_init : (system plain).init opened := ⟨45, 21, [], [], rfl⟩

/-- `get_msg` with the data of one read -/
def taking (data : Bytes) : Op := .getMsg false [⟨.data data, []⟩] []

/-- `help`, an unfinished `li`, `sts` in what follows, and a line end of two characters that has
arrived as a whole -/
theorem lines_delivered_two : ∃ r, (system plain).Reachable r ∧
    (r.endless = false ∧ r.channel.ch.instate = .needLen) ∧
    r.heard = [104, 101, 108, 112, 13, 10, 108, 105, 115, 116, 115, 10] ∧
    r.lines = Pieces.pieces plain.control r.heard := by
  have hrun : ((system plain).exec opened
      [taking [104, 101, 108, 112, 13, 10, 108, 105], taking [115, 116, 115, 10]]).map
        (fun r => decide ((r.endless = false ∧ r.channel.ch.instate = .needLen) ∧ r.blanks = 0 ∧
          r.heard = [104, 101, 108, 112, 13, 10, 108, 105, 115, 116, 115, 10])) = some true := by
    decide +kernel
  obtain ⟨r, hr, hstate⟩ := Option.map_eq_some_iff.mp hrun
  obtain ⟨⟨hends, hneed⟩, hblanks, hheard⟩ := of_decide_eq_true hstate
  have hreaches := (Transition.System.Reaches.init opened_init).exec (fun _ _ _ => trivial) hr
  exact ⟨r, hreaches, ⟨hends, hneed⟩, hheard,
    ((lines_delivered hreaches hends).2 hneed).mpr hblanks⟩

/-- A line end of two characters that arrives in two reads is followed by an empty line. -/
theorem lines_depend_on_reads : ∃ r r', ((system plain).Reachable r ∧
      (system plain).Reachable r') ∧
    (r.endless = false ∧ r'.endless = false) ∧
    (r.channel.ch.instate = .needLen ∧ r'.channel.ch.instate = .needLen) ∧
    (r.heard = [97, 13, 10, 98, 10] ∧ r'.heard = r.heard) ∧
    r.lines = [[97], [98]] ∧ r'.lines = [[97], [], [98]] := by
  have hrun : ((system plain).exec opened [taking [97, 13, 10, 98, 10], taking []]).map
      (fun r => decide ((r.endless = false ∧ r.channel.ch.instate = .needLen) ∧
        r.heard = [97, 13, 10, 98, 10] ∧ r.lines = [[97], [98]])) = some true := by
    decide +kernel
  have hsplit : ((system plain).exec opened [taking [97, 13], taking [10, 98, 10], taking []]).map
      (fun r => decide ((r.endless = false ∧ r.channel.ch.instate = .needLen) ∧
        r.heard = [97, 13, 10, 98, 10] ∧ r.lines = [[97], [], [98]])) = some true := by
    decide +kernel
  obtain ⟨r, hr, hstate⟩ := Option.map_eq_some_iff.mp hrun
  obtain ⟨r', hr', hstate'⟩ := Option.map_eq_some_iff.mp hsplit
  obtain ⟨⟨hends, hneed⟩, hheard, hlines⟩ := of_decide_eq_true hstate
  obtain ⟨⟨hends', hneed'⟩, hheard', hlines'⟩ := of_decide_eq_true hstate'
  have hreaches := (Transition.System.Reaches.init opened_init).exec (fun _ _ _ => trivial) hr
  have hreaches' := (Transition.System.Reaches.init opened_init).exec (fun _ _ _ => trivial) hr'
  exact ⟨r, r', ⟨hreaches, hreaches'⟩, ⟨hends, hends'⟩, ⟨hneed, hneed'⟩,
    ⟨hheard, hheard'.trans hheard.symm⟩, hlines, hlines'⟩

end TextChannel

end Icecream.Comm

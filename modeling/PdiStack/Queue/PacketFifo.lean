import PdiStack.Core.StateMachine
import PdiStack.Queue.PacketQueue

/-!
# The packet queue is first in, first out

The bytes a queue holds are always the frames of the packets that are accepted and
not yet returned, so a read returns the oldest of them whole.  A packet that is
refused leaves the bytes held as they were, and with them every later answer.
-/

namespace PdiStack.PacketFifo

open StringOperations StateMachine PacketQueue List

def insidePacket (bufSize : ℕ) (data : Text) : ProtoParser :=
  { data := data, bufSize := bufSize, isEsc := false, isBegin := true }

theorem takePacket_plain {bufSize : ℕ} {data : Text} (hroom : data.length < bufSize) {char : UInt8}
    (hchar : isMark char = false) {rest : Text} :
    takePacket (insidePacket bufSize data) (char :: rest) =
      takePacket (insidePacket bufSize (data ++ [char])) rest := by
  simp only [isMark, decide_eq_false_iff_not, not_or] at hchar
  obtain ⟨hescape, hstart, hend⟩ := hchar
  simp [takePacket, protoParseByte, insidePacket, hescape, hstart, hend, hroom]

theorem takePacket_mark {bufSize : ℕ} {data : Text} (hroom : data.length < bufSize) {char : UInt8}
    (hchar : isMark char) {rest : Text} :
    takePacket (insidePacket bufSize data) (escapeMark :: (char ^^^ 0x20) :: rest) =
      takePacket (insidePacket bufSize (data ++ [char])) rest := by
  have hcomplement : isMark (char ^^^ 0x20) = false ∧ (char ^^^ 0x20) ^^^ 0x20 = char := by
    rcases of_decide_eq_true hchar with rfl | rfl | rfl <;> decide
  obtain ⟨hplain, hback⟩ := hcomplement
  simp only [isMark, decide_eq_false_iff_not, not_or] at hplain
  obtain ⟨hescape, hstart, hend⟩ := hplain
  simp [takePacket, protoParseByte, insidePacket, hescape, hstart, hend, hroom]

/-- The escaped bytes of a packet and its end mark complete it. -/
theorem takePacket_escaped {bufSize : ℕ} {data packet : Text}
    (hroom : data.length + packet.length ≤ bufSize) {rest : Text} :
    takePacket (insidePacket bufSize data) (escaped packet ++ endMark :: rest) =
      (some (data ++ packet), rest) := by
  induction packet generalizing data with
  | nil =>
    rw [append_nil]
    rfl
  | cons char packet ih =>
    rw [length_cons] at hroom
    have hnext : takePacket (insidePacket bufSize (data ++ [char]))
        (escaped packet ++ endMark :: rest) = (some (data ++ char :: packet), rest) := by
      rw [ih (by rw [length_append]; simp only [length_singleton]; omega),
        append_assoc, singleton_append]
    rw [escaped, flatMap_cons]
    split
    case isTrue hmark => exact (takePacket_mark (by omega) hmark).trans hnext
    case isFalse hplain =>
      exact (takePacket_plain (by omega) (Bool.eq_false_iff.mpr hplain)).trans hnext

/-- A frame is read back as its packet, whatever the parser held before. -/
theorem takePacket_frame {parser : ProtoParser} {packet : Text}
    (hroom : packet.length ≤ parser.bufSize) (rest : Text) :
    takePacket parser (frame packet ++ rest) = (some packet, rest) := by
  have hpacket : takePacket (insidePacket parser.bufSize []) (escaped packet ++ endMark :: rest) =
      (some packet, rest) :=
    takePacket_escaped (by rw [length_nil]; omega)
  rw [← hpacket, frame, cons_append, append_assoc]
  rfl

def acceptedBy : Call × Answer → List Text
  | (.puts packet, .put (some _)) => [packet]
  | _ => []

def returnedBy : Call × Answer → List Text
  | (.gets _ _, .got (some packet)) => [packet]
  | _ => []

def accepted (history : List (Call × Answer)) : List Text := history.flatMap acceptedBy

def returned (history : List (Call × Answer)) : List Text := history.flatMap returnedBy

/-- Every read of the run has room for every packet put. -/
def RoomForAll (calls : List Call) : Prop :=
  ∀ maxLen isBegin packet, Call.gets maxLen isBegin ∈ calls → Call.puts packet ∈ calls →
    packet.length ≤ maxLen

/-- The bytes held are the frames of the packets accepted and not returned, each one of
those the run puts. -/
def Pending (calls : List Call) (held : Text) (seen : List Text × List Text) : Prop :=
  ∃ pending, seen.1 = seen.2 ++ pending ∧ held = pending.flatMap frame ∧
    ∀ packet ∈ pending, Call.puts packet ∈ calls

def note (seen : List Text × List Text) (entry : Call × Answer) : List Text × List Text :=
  (seen.1 ++ acceptedBy entry, seen.2 ++ returnedBy entry)

theorem foldl_note (history : List (Call × Answer)) (seen : List Text × List Text) :
    history.foldl note seen = (seen.1 ++ accepted history, seen.2 ++ returned history) := by
  induction history generalizing seen with
  | nil => simp [accepted, returned]
  | cons entry history ih => simp [ih, note, accepted, returned]

theorem pending_bytesStep {calls : List Call} (hroom : RoomForAll calls) (size : ℕ) (held : Text)
    (seen : List Text × List Text) (call : Call) (hcall : call ∈ calls)
    (hpending : Pending calls held seen) :
    Pending calls (bytesStep size held call).2 (note seen (call, (bytesStep size held call).1)) := by
  obtain ⟨pending, hseen, rfl, hfrom⟩ := hpending
  cases call with
  | puts packet =>
    rw [bytesStep]
    split
    case isTrue =>
      refine ⟨pending ++ [packet], ?_, ?_, ?_⟩
      · simp [note, acceptedBy, returnedBy, hseen]
      · rw [flatMap_append, flatMap_singleton]
      · intro other hother
        rcases mem_append.mp hother with hold | hnew
        · exact hfrom other hold
        · rw [mem_singleton.mp hnew]
          exact hcall
    case isFalse =>
      refine ⟨pending, ?_, rfl, hfrom⟩
      simp [note, acceptedBy, returnedBy, hseen]
  | gets maxLen isBegin =>
    rw [bytesStep]
    cases pending with
    | nil => exact ⟨[], by simp [note, acceptedBy, returnedBy, hseen, takePacket], rfl, hfrom⟩
    | cons packet pending =>
      have hpacket := hfrom packet mem_cons_self
      rw [flatMap_cons, takePacket_frame (hroom maxLen isBegin packet hcall hpacket)]
      refine ⟨pending, ?_, rfl, fun other hother => hfrom other (mem_cons_of_mem _ hother)⟩
      simp [note, acceptedBy, returnedBy, hseen]

/-- What the ring buffer holds after a run from the empty queue. -/
theorem holds_pending {cells : ℕ → UInt8} {size : ℕ} {rb : RingBuf}
    (hinit : queueInit cells size = some rb) {calls : List Call} (hroom : RoomForAll calls) :
    ∃ pending, accepted (run queueStep calls rb).1 = returned (run queueStep calls rb).1 ++ pending ∧
      Holds size (run queueStep calls rb).2 (pending.flatMap frame) := by
  obtain ⟨hhistory, hholds⟩ := run_refines (Holds size) holds_queueStep calls
    (holds_ringbufInit hinit)
  have hpending := run_simulation_of_allowed note (Pending calls)
    (fun held seen call => pending_bytesStep hroom size held seen call) calls
    (allowed_of_mem (fun call hcall _ => hcall) [])
    (show Pending calls [] ([], []) from ⟨[], rfl, rfl, nofun⟩)
  rw [← hhistory, foldl_note] at hpending
  obtain ⟨pending, hseen, hheld, -⟩ := hpending
  exact ⟨pending, hseen, hheld ▸ hholds⟩

theorem frame_flatMap_eq_nil {pending : List Text} : pending.flatMap frame = [] ↔ pending = [] := by
  cases pending with
  | nil => simp
  | cons packet pending => simp [frame]

/-- From any queue of at least two bytes, after any calls whose reads have room for the
packets put: what was returned is a beginning of what was accepted, the queue is
empty just when all of it was returned, a refused packet changes no later answer, and
a packet is accepted when its escaped bytes and the two marks fit the free space. -/
theorem queue_is_fifo (cells : ℕ → UInt8) {size : ℕ} (hsize : 2 ≤ size) {calls : List Call}
    (hroom : RoomForAll calls) :
    ∃ rb, queueInit cells size = some rb ∧
      returned (run queueStep calls rb).1 <+: accepted (run queueStep calls rb).1 ∧
      (queueIsEmpty (run queueStep calls rb).2 ↔
        returned (run queueStep calls rb).1 = accepted (run queueStep calls rb).1) ∧
      (∀ packet, (queuePuts (run queueStep calls rb).2 packet).1 = none → ∀ later,
        (run queueStep later (queuePuts (run queueStep calls rb).2 packet).2).1 =
          (run queueStep later (run queueStep calls rb).2).1) ∧
      ∀ packet, (escaped packet).length + 2 ≤ size - (run queueStep calls rb).2.fillCnt →
        (queuePuts (run queueStep calls rb).2 packet).1.isSome := by
  have hinit : queueInit cells size = some ⟨cells, 0, 0, 0, size⟩ := if_neg (Nat.not_lt.mpr hsize)
  refine ⟨_, hinit, ?_⟩
  obtain ⟨pending, hseen, hholds⟩ := holds_pending hinit hroom
  generalize (run queueStep calls ⟨cells, 0, 0, 0, size⟩).2 = rb at hholds ⊢
  have hfill : rb.fillCnt = (pending.flatMap frame).length := by
    rw [← length_contents, hholds.contents_eq]
  refine ⟨⟨pending, hseen.symm⟩, ?_, fun packet hrefused later => ?_, fun packet hfits => ?_⟩
  · rw [hseen, queueIsEmpty, decide_eq_true_iff, hfill, length_eq_zero_iff,
      frame_flatMap_eq_nil, self_eq_append_right]
  · obtain ⟨hanswer, hnext⟩ := holds_queuePuts hholds packet
    have hsame : (bytesStep size (pending.flatMap frame) (.puts packet)).2 =
        pending.flatMap frame := by
      rw [bytesStep] at hanswer ⊢
      split
      case isTrue hfits =>
        rw [if_pos hfits] at hanswer
        have hput : (queuePuts rb packet).1 = some _ := Answer.put.inj hanswer
        rw [hrefused] at hput
        cases hput
      case isFalse => rfl
    rw [hsame] at hnext
    exact (run_refines (Holds size) holds_queueStep later hnext).1.trans
      (run_refines (Holds size) holds_queueStep later hholds).1.symm
  · obtain ⟨hanswer, -⟩ := holds_queuePuts hholds packet
    rw [bytesStep, if_pos (by rw [length_frame]; have := hholds.sound.fillCnt_le; omega)]
      at hanswer
    rw [Answer.put.inj hanswer]
    rfl

/-- A packet with a mark in it, an empty one, a read, and a packet too long for what is
left of eight bytes. -/
def mixedCalls : List Call := [.puts [0x7E, 0x41], .puts [], .gets 3 true, .puts [0x41, 0x42, 0x43]]

theorem roomForAll_mixedCalls : RoomForAll mixedCalls := by
  intro maxLen isBegin packet hgets hputs
  simp only [mixedCalls, mem_cons, not_mem_nil, reduceCtorEq,
    Call.puts.injEq, false_or, or_false] at hgets hputs
  obtain ⟨rfl, -⟩ := hgets
  rcases hputs with rfl | rfl | rfl <;> decide

theorem mixedCalls_fifo : ∃ rb, queueInit (fun _ => 0) 8 = some rb ∧
    returned (run queueStep mixedCalls rb).1 <+: accepted (run queueStep mixedCalls rb).1 ∧
    (queueIsEmpty (run queueStep mixedCalls rb).2 ↔
      returned (run queueStep mixedCalls rb).1 = accepted (run queueStep mixedCalls rb).1) := by
  obtain ⟨rb, hinit, hbegins, hempty, -⟩ :=
    queue_is_fifo (fun _ => 0) (show 2 ≤ 8 by decide) roomForAll_mixedCalls
  exact ⟨rb, hinit, hbegins, hempty⟩

end PdiStack.PacketFifo

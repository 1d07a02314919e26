import AasSign.Codec.Text
import AasSign.Foundation.PutBuffer

/-! # Lines of a log

`FileLogger::LineStream`: an object that collects a line through `operator<<`, may be
moved while it does, and emits the line when it is destroyed. The text that a moved
stream is built from is written again from its start.
-/

namespace AasSign

open Foundation

/-- `std::ostringstream`: its text, and where it is written next. -/
abbrev OStringStream := PutBuffer UInt8

/-- `std::ostringstream(text)`, without `std::ios::ate`. -/
def OStringStream.ofString (text : Bytes) : OStringStream := ⟨text, 0⟩

/-- `FileLogger`, with what it has written to stderr. The buffer is only ever extended. -/
structure FileLogger where
  file : Bytes
  multi : Bool
  buf : OStringStream
  stderr : List Bytes
  buf_atEnd : buf.put = buf.text.length

namespace FileLogger

def linePrefix (logger : FileLogger) : Bytes := ascii "[" ++ logger.file ++ ascii "] "

/-- `buf_ << text`. -/
def append (logger : FileLogger) (text : Bytes) : FileLogger where
  file := logger.file
  multi := logger.multi
  buf := logger.buf.write text
  stderr := logger.stderr
  buf_atEnd := by
    rw [PutBuffer.write_atEnd logger.buf_atEnd]
    simp [logger.buf_atEnd]

/-- `platform::write_stderr(text)`. -/
def emit (logger : FileLogger) (text : Bytes) : FileLogger where
  file := logger.file
  multi := logger.multi
  buf := logger.buf
  stderr := logger.stderr ++ [text]
  buf_atEnd := logger.buf_atEnd

end FileLogger

/-- A `LineStream`; without an owner it has been moved from. -/
structure LineStream where
  owned : Bool
  multi : Bool
  os : OStringStream

namespace LineStream

/-- The move constructor: the new object, and what is left of the other. -/
def moveFrom (other : LineStream) : LineStream × LineStream :=
  (⟨other.owned, other.multi, OStringStream.ofString other.os.text⟩,
    ⟨false, other.multi, PutBuffer.empty⟩)

/-- `operator<<`, with the text that the value is formatted as. -/
def insert (ls : LineStream) (text : Bytes) : LineStream := { ls with os := ls.os.write text }

/-- The destructor. -/
def destroy (ls : LineStream) (logger : FileLogger) : FileLogger :=
  if !ls.owned then logger
  else if ls.multi then logger.append ls.os.text
  else logger.emit ls.os.text

end LineStream

/-- What happens to a line: text is inserted, the object is moved, or one of the objects that
were moved from is destroyed. -/
inductive LineStep where
  | insert (text : Bytes)
  | move
  | drop (i : Nat)

/-- The object that holds the line, and the objects it was moved from. -/
structure LineState where
  current : LineStream
  husks : List LineStream
  logger : FileLogger

namespace LineState

def step (s : LineState) : LineStep → LineState
  | .insert text => { s with current := s.current.insert text }
  | .move =>
      let (moved, husk) := s.current.moveFrom
      { s with current := moved, husks := husk :: s.husks }
  | .drop i =>
      match s.husks[i]? with
      | none => s
      | some husk => { s with husks := s.husks.eraseIdx i, logger := husk.destroy s.logger }

def run (s : LineState) (steps : List LineStep) : LineState := steps.foldl step s

/-- The objects that are left are destroyed. -/
def finish (s : LineState) : FileLogger :=
  s.husks.foldl (fun logger husk => husk.destroy logger) (s.current.destroy s.logger)

end LineState

/-- `FileLogger::line`. -/
def FileLogger.line (logger : FileLogger) : LineState where
  current :=
    let ls : LineStream := ⟨true, logger.multi, PutBuffer.empty⟩
    if logger.multi then ls.insert logger.linePrefix else ls
  husks := []
  logger

/-- What a step does to the stream of the line. -/
def LineStep.onStream : LineStep → Option (BufferStep UInt8)
  | .insert text => some (.write text)
  | .move => some .rewind
  | .drop _ => none

/-- All that is done to the stream of a line, the prefix included. -/
def streamSteps (logger : FileLogger) (steps : List LineStep) : List (BufferStep UInt8) :=
  (if logger.multi then [.write logger.linePrefix] else []) ++ steps.filterMap LineStep.onStream

/-- The whole text of the line is emitted, and nothing else. -/
def Emits (logger : FileLogger) (steps : List LineStep) : Prop :=
  let text := written (streamSteps logger steps)
  (logger.line.run steps).finish = if logger.multi then logger.append text else logger.emit text

/-! ## One object owns the line -/

/-- The line is with the current object, and no other object emits anything. -/
structure LineState.Held (s : LineState) (logger : FileLogger) (os : OStringStream) : Prop where
  current : s.current = ⟨true, logger.multi, os⟩
  husks : ∀ husk ∈ s.husks, husk.owned = false
  logger : s.logger = logger

namespace LineState.Held

variable {s : LineState} {logger : FileLogger} {os : OStringStream}

theorem destroy_husk {husk : LineStream} (h : husk.owned = false) (logger : FileLogger) :
    husk.destroy logger = logger := by
  rw [LineStream.destroy, h]
  rfl

theorem step (h : s.Held logger os) (e : LineStep) :
    (s.step e).Held logger (os.run e.onStream.toList) := by
  obtain ⟨hcurrent, hhusks, hlogger⟩ := h
  cases e with
  | insert text =>
      refine ⟨?_, hhusks, hlogger⟩
      rw [LineState.step, hcurrent]
      rfl
  | move =>
      refine ⟨?_, ?_, hlogger⟩
      · rw [LineState.step, hcurrent]
        rfl
      · exact List.forall_mem_cons.mpr ⟨rfl, hhusks⟩
  | drop i =>
      rw [LineState.step]
      cases hhusk : s.husks[i]? with
      | none => exact ⟨hcurrent, hhusks, hlogger⟩
      | some husk =>
          refine ⟨hcurrent, ?_, ?_⟩
          · intro other hother
            exact hhusks other (List.mem_of_mem_eraseIdx hother)
          · dsimp only
            rw [destroy_husk (hhusks husk (List.mem_of_getElem? hhusk)), hlogger]

theorem run (h : s.Held logger os) (steps : List LineStep) :
    (s.run steps).Held logger (os.run (steps.filterMap LineStep.onStream)) := by
  induction steps generalizing s os with
  | nil => exact h
  | cons e rest ih =>
      have hrest := ih (h.step e)
      cases e with
      | insert text => exact hrest
      | move => exact hrest
      | drop i => exact hrest

/-- The line is emitted once, by the object that holds it. -/
theorem finish (h : s.Held logger os) :
    s.finish = if logger.multi then logger.append os.text else logger.emit os.text := by
  obtain ⟨hcurrent, hhusks, hlogger⟩ := h
  have hrest (logger : FileLogger) : s.husks.foldl (fun logger husk => husk.destroy logger) logger =
      logger := by
    generalize s.husks = husks at hhusks
    induction husks with
    | nil => rfl
    | cons husk rest ih =>
        obtain ⟨hhusk, hothers⟩ := List.forall_mem_cons.mp hhusks
        rw [List.foldl_cons, destroy_husk hhusk, ih hothers]
  rw [LineState.finish, hrest, hcurrent, hlogger, LineStream.destroy]
  rfl

end LineState.Held

theorem FileLogger.line_held (logger : FileLogger) : logger.line.Held logger
    (PutBuffer.empty.run (if logger.multi then [.write logger.linePrefix] else [])) := by
  refine ⟨?_, by simp [FileLogger.line], rfl⟩
  unfold FileLogger.line
  cases hmulti : logger.multi <;> rfl

/-- What is emitted at the end is what the stream of the line holds. -/
theorem line_finish (logger : FileLogger) (steps : List LineStep) :
    (logger.line.run steps).finish =
      if logger.multi then logger.append (PutBuffer.empty.run (streamSteps logger steps)).text
      else logger.emit (PutBuffer.empty.run (streamSteps logger steps)).text := by
  rw [(logger.line_held.run steps).finish, streamSteps, PutBuffer.run_append]

theorem append_injective {logger : FileLogger} {text text' : Bytes}
    (h : logger.append text = logger.append text') : text = text' := by
  have htext := congrArg (fun logger : FileLogger => logger.buf.text) h
  simp only [FileLogger.append, PutBuffer.write_atEnd logger.buf_atEnd] at htext
  exact List.append_cancel_left htext

theorem emit_injective {logger : FileLogger} {text text' : Bytes}
    (h : logger.emit text = logger.emit text') : text = text' := by
  have hstderr := congrArg FileLogger.stderr h
  exact (List.cons.inj (List.append_cancel_left hstderr)).1

theorem emits_iff_text (logger : FileLogger) (steps : List LineStep) : Emits logger steps ↔
    (PutBuffer.empty.run (streamSteps logger steps)).text = written (streamSteps logger steps) := by
  rw [Emits, line_finish]
  constructor
  · intro h
    cases hmulti : logger.multi with
    | true =>
        simp only [hmulti, if_true] at h
        exact append_injective h
    | false =>
        simp only [hmulti] at h
        exact emit_injective h
  · intro h
    rw [h]

/-! ## When the text survives -/

/-- The logger of `a.exe` among several files. -/
def multiLogger : FileLogger where
  file := ascii "a.exe"
  multi := true
  buf := PutBuffer.empty
  stderr := []
  buf_atEnd := rfl

/-- `line()` moves its object out, and `signed` is inserted: the prefix is overwritten. -/
theorem movedLine_overwritten :
    ((multiLogger.line.run [.move, .insert (ascii "signed")]).finish.buf.text = ascii "signed] ") ∧
      ¬Emits multiLogger [.move, .insert (ascii "signed")] := by
  refine ⟨by decide +kernel, ?_⟩
  rw [emits_iff_text]
  decide +kernel

/-- The whole text is emitted once exactly if no move stands between two parts of it that are
not empty; with several files the prefix is the first part. -/
theorem lineStream_emits_iff (logger : FileLogger) (steps : List LineStep) :
    Emits logger steps ↔ ∀ before after, streamSteps logger steps = before ++ .rewind :: after →
      written before = [] ∨ written after = [] := by
  rw [emits_iff_text]
  exact PutBuffer.run_empty_text_iff (streamSteps logger steps)

end AasSign

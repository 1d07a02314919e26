import AasSign.Http.Delivery
import AasSign.Http.Framing
import AasSign.Msi.Numbers

/-! # Requests made of lines

A request as a server reads it off a connection: a request line, header fields, a blank line,
and a body as long as the fields say. A request is read back from its text, and no front of
the text is a request, so that a connection that breaks has not asked for anything.
-/

namespace AasSign

open Foundation

/-- What a request asks for. -/
structure RequestMessage where
  method : Bytes
  target : Bytes
  fields : List (Bytes × Bytes)
  body : Bytes
  deriving DecidableEq

/-- What a server makes of the octets that have come so far. -/
inductive Reading where
  | incomplete
  | malformed
  | complete (message : RequestMessage) (rest : Bytes)
  deriving DecidableEq

/-! ## Reading -/

/-- The lines that line ends divide. -/
def splitLines : Bytes → List Bytes
  | [] => [[]]
  | 13 :: 10 :: rest => [] :: splitLines rest
  | c :: rest =>
      match splitLines rest with
      | [] => [[c]]
      | line :: lines => (c :: line) :: lines

/-- The method and the target of a request line. -/
def readRequestLine (line : Bytes) : Option (Bytes × Bytes) :=
  let method := line.takeWhile (· ≠ 32)
  let rest := line.drop (method.length + 1)
  let target := rest.takeWhile (· ≠ 32)
  if rest.drop target.length = ascii " HTTP/1.1" then some (method, target) else none

/-- The name and the value of a field; blanks in front of the value are not part of it. -/
def readField (line : Bytes) : Option (Bytes × Bytes) :=
  let name := line.takeWhile (· ≠ 58)
  if 58 ∈ line then some (name, (line.drop (name.length + 1)).dropWhile fun c => c = 32 ∨ c = 9)
  else none

def readDecimal (text : Bytes) : Option Nat :=
  if text ≠ [] ∧ text.all fun c => isDigit c then some (decimal text) else none

/-- The fields with a name, in any case. -/
def fieldsNamed (name : String) (fields : List (Bytes × Bytes)) : List (Bytes × Bytes) :=
  fields.filter fun field => field.1.map toLower = ascii name

/-- The length of the body. A transfer coding is not understood, nor is a length given twice. -/
def readContentLength (fields : List (Bytes × Bytes)) : Option Nat :=
  if fieldsNamed "transfer-encoding" fields ≠ [] then none
  else
    match fieldsNamed "content-length" fields with
    | [] => some 0
    | [field] => readDecimal field.2
    | _ => none

/-- The lines of the head, without the blank one. -/
def readHead (lines : List Bytes) : Option (Bytes × Bytes × List (Bytes × Bytes) × Nat) :=
  match lines with
  | [] => none
  | first :: headers => do
      let (method, target) ← readRequestLine first
      let fields ← headers.mapM readField
      let length ← readContentLength fields
      return (method, target, fields, length)

def readRequest (raw : Bytes) : Reading :=
  match findFrom (crlf ++ crlf) raw 0 with
  | none => .incomplete
  | some headEnd =>
      match readHead (splitLines (raw.take headEnd)) with
      | none => .malformed
      | some (method, target, fields, length) =>
          let rest := raw.drop (headEnd + 4)
          if rest.length < length then .incomplete
          else .complete ⟨method, target, fields, rest.take length⟩ (rest.drop length)

/-! ## Messages -/

namespace RequestMessage

def fieldLine (field : Bytes × Bytes) : Bytes := field.1 ++ ascii ": " ++ field.2

def requestLine (m : RequestMessage) : Bytes := m.method ++ ascii " " ++ m.target ++ ascii " HTTP/1.1"

def lines (m : RequestMessage) : List Bytes := m.fields.map fieldLine

def raw (m : RequestMessage) : Bytes := block crlf (m.requestLine :: m.lines) ++ (crlf ++ m.body)

/-- A field that a line can hold. -/
def PlainField (field : Bytes × Bytes) : Prop :=
  58 ∉ field.1 ∧ 13 ∉ field.1 ∧ 13 ∉ field.2 ∧ field.2.head? ≠ some 32 ∧ field.2.head? ≠ some 9

instance : DecidablePred PlainField := fun _ => inferInstanceAs (Decidable (_ ∧ _))

/-- Nothing in the message is cut off by a space, a colon or a line end, and its fields give the
length of its body. -/
structure Plain (m : RequestMessage) : Prop where
  method : 32 ∉ m.method ∧ 13 ∉ m.method
  target : 32 ∉ m.target ∧ 13 ∉ m.target
  fields : ∀ field ∈ m.fields, PlainField field
  length : readContentLength m.fields = some m.body.length

end RequestMessage

section Lines

variable {line rest : Bytes} {lines : List Bytes}

theorem splitLines_line (hline : 13 ∉ line) : splitLines line = [line] := by
  induction line with
  | nil => rfl
  | cons c line ih =>
      obtain ⟨hc, htail⟩ := not_or.mp (List.mem_cons.not.mp hline)
      rw [splitLines, ih htail]
      rintro rest rfl
      exact absurd rfl hc

theorem splitLines_append (hline : 13 ∉ line) :
    splitLines (line ++ (crlf ++ rest)) = line :: splitLines rest := by
  induction line with
  | nil => rfl
  | cons c line ih =>
      obtain ⟨hc, htail⟩ := not_or.mp (List.mem_cons.not.mp hline)
      rw [List.cons_append, splitLines, ih htail]
      rintro rest' rfl
      exact absurd rfl hc

/-- Lines that are put together with line ends are divided again where they were. -/
theorem splitLines_intercalate {first : Bytes} (hlines : ∀ line ∈ first :: lines, 13 ∉ line) :
    splitLines (crlf.intercalate (first :: lines)) = first :: lines := by
  induction lines generalizing first with
  | nil =>
      rw [List.intercalate_singleton]
      exact splitLines_line (hlines first List.mem_cons_self)
  | cons line lines ih =>
      obtain ⟨hfirst, hrest⟩ := List.forall_mem_cons.mp hlines
      rw [List.intercalate_cons_cons, List.append_assoc, splitLines_append hfirst, ih hrest]

theorem unbroken_of_not_mem (h : 13 ∉ line) : ¬ crlf <:+: line :=
  fun hbreak => h (hbreak.subset List.mem_cons_self)

end Lines

section Fields

variable {method target : Bytes} {field : Bytes × Bytes}

theorem drop_symbol {front back : Bytes} {c : UInt8} :
    (front ++ c :: back).drop (front.length + 1) = back := by
  rw [List.drop_length_add_append]
  rfl

theorem readRequestLine_eq (hmethod : 32 ∉ method) (htarget : 32 ∉ target) :
    readRequestLine (method ++ ascii " " ++ target ++ ascii " HTTP/1.1") = some (method, target) := by
  have hspace : ascii " HTTP/1.1" = 32 :: ascii "HTTP/1.1" := by decide
  have hline : method ++ ascii " " ++ target ++ ascii " HTTP/1.1" =
      method ++ 32 :: (target ++ 32 :: ascii "HTTP/1.1") := by
    rw [hspace, List.append_assoc, List.append_assoc]
    rfl
  rw [hline, readRequestLine]
  simp only [(takeWhile_symbol hmethod _).1, drop_symbol, (takeWhile_symbol htarget _).1,
    List.drop_left, hspace, if_true]

theorem dropWhile_head {p : UInt8 → Bool} {value : Bytes} (h : ∀ c ∈ value.head?, p c = false) :
    value.dropWhile p = value := by
  cases value with
  | nil => rfl
  | cons c value => exact List.dropWhile_cons_of_neg (by simp [h c rfl])

theorem readField_fieldLine (h : RequestMessage.PlainField field) :
    readField (RequestMessage.fieldLine field) = some field := by
  obtain ⟨hcolon, -, -, hspace, htab⟩ := h
  have hline : RequestMessage.fieldLine field = field.1 ++ 58 :: 32 :: field.2 := by
    rw [RequestMessage.fieldLine, List.append_assoc]
    rfl
  have hvalue : field.2.dropWhile (fun c => decide (c = 32 ∨ c = 9)) = field.2 := by
    apply dropWhile_head
    rintro c hc
    rw [decide_eq_false_iff_not]
    rintro (rfl | rfl)
    · exact hspace hc
    · exact htab hc
  rw [hline, readField]
  simp only [(takeWhile_symbol hcolon _).1, drop_symbol, List.mem_append, List.mem_cons, true_or,
    or_true, if_true, List.dropWhile_cons_of_pos, decide_true, hvalue]

theorem mapM_readField {fields : List (Bytes × Bytes)}
    (h : ∀ field ∈ fields, RequestMessage.PlainField field) :
    (fields.map RequestMessage.fieldLine).mapM readField = some fields := by
  induction fields with
  | nil => rfl
  | cons field fields ih =>
      obtain ⟨hfield, hfields⟩ := List.forall_mem_cons.mp h
      rw [List.map_cons, List.mapM_cons, readField_fieldLine hfield, ih hfields]
      rfl

theorem readDecimal_toString (n : Nat) : readDecimal (ascii (toString n)) = some n := by
  have hdigits : (ascii (toString n)).all (fun c => isDigit c) :=
    List.all_eq_true.mpr fun c hc => decide_eq_true (isDigit_of_mem_ascii_toString hc)
  rw [readDecimal, if_pos ⟨ascii_toString_ne_nil n, hdigits⟩, decimal_ascii_toString]

end Fields

namespace RequestMessage

variable {m : RequestMessage}

theorem Plain.line_free (h : m.Plain) : ∀ line ∈ m.requestLine :: m.lines, 13 ∉ line := by
  have hspace : (13 : UInt8) ∉ ascii " " := by decide
  have hversion : (13 : UInt8) ∉ ascii " HTTP/1.1" := by decide
  have hcolon : (13 : UInt8) ∉ ascii ": " := by decide
  rw [List.forall_mem_cons]
  constructor
  · simp [requestLine, h.method.2, h.target.2, hspace, hversion]
  · rintro line hline
    obtain ⟨field, hfield, rfl⟩ := List.mem_map.mp hline
    obtain ⟨-, hname, hvalue, -, -⟩ := h.fields field hfield
    simp [fieldLine, hname, hvalue, hcolon]

theorem fieldLine_ne_nil (field : Bytes × Bytes) : fieldLine field ≠ [] := by
  simp [fieldLine, show ascii ": " ≠ [] by decide]

/-- The text of the head. -/
def head (m : RequestMessage) : Bytes := crlf.intercalate (m.requestLine :: m.lines)

theorem raw_eq : m.raw = m.head ++ (crlf ++ (crlf ++ m.body)) := by
  rw [raw, block_eq_intercalate, List.append_assoc, head]

theorem Plain.findFrom_head (h : m.Plain) (rest : Bytes) :
    findFrom (crlf ++ crlf) (m.head ++ (crlf ++ (crlf ++ rest))) 0 = some m.head.length := by
  obtain ⟨hfirst, hlines⟩ := List.forall_mem_cons.mp h.line_free
  apply findFrom_lines (by decide) (unbroken_of_not_mem hfirst)
  intro line hline
  refine ⟨unbroken_of_not_mem (hlines line hline), ?_⟩
  obtain ⟨field, -, rfl⟩ := List.mem_map.mp hline
  exact fieldLine_ne_nil field

theorem Plain.readHead (h : m.Plain) : AasSign.readHead (splitLines m.head) =
    some (m.method, m.target, m.fields, m.body.length) := by
  rw [head, splitLines_intercalate h.line_free, AasSign.readHead, requestLine,
    readRequestLine_eq h.method.1 h.target.1, lines, mapM_readField h.fields]
  simp [h.length]

/-- What is read when the head has come, and some octets of the body. -/
theorem Plain.read_after_head (h : m.Plain) (rest : Bytes) :
    readRequest (m.head ++ (crlf ++ (crlf ++ rest))) =
      if rest.length < m.body.length then .incomplete
      else .complete ⟨m.method, m.target, m.fields, rest.take m.body.length⟩
        (rest.drop m.body.length) := by
  have hdrop : (m.head ++ (crlf ++ (crlf ++ rest))).drop (m.head.length + 4) = rest := by
    rw [List.drop_length_add_append]
    rfl
  rw [readRequest, h.findFrom_head rest]
  simp only [List.take_left, h.readHead, hdrop]

/-- A request is read back from its text, with what follows it. -/
theorem Plain.read (h : m.Plain) (rest : Bytes) : readRequest (m.raw ++ rest) = .complete m rest := by
  have htext : m.raw ++ rest = m.head ++ (crlf ++ (crlf ++ (m.body ++ rest))) := by
    simp [raw_eq]
  rw [htext, h.read_after_head, if_neg (by simp), List.take_left, List.drop_left]

/-- A front of a text that holds a mark holds it at the same place, or ends before its end. -/
theorem findFrom_front {needle front whole : Bytes} {i : Nat} (hfront : front <+: whole)
    (h : findFrom needle whole 0 = some i) (hshort : front.length < i + needle.length) :
    findFrom needle front 0 = none := by
  obtain ⟨back, rfl⟩ := hfront
  obtain ⟨-, -, hfirst⟩ := findFrom_eq_some.mp h
  rw [findFrom_eq_none]
  rintro j - hoccurs
  have hbound := OccursAt.bound hoccurs
  refine hfirst j (Nat.zero_le j) (by omega) ?_
  obtain ⟨before, after, hwhole, hlength⟩ := hoccurs
  exact ⟨before, after ++ back, by rw [hwhole, List.append_assoc, List.append_assoc], hlength⟩

/-- No front of the text is a request: a server waits for the rest. -/
theorem Plain.read_front (h : m.Plain) {front : Bytes} (hfront : front <+: m.raw)
    (hne : front ≠ m.raw) : readRequest front = .incomplete := by
  have hless : front.length < m.raw.length :=
    lt_of_le_of_ne hfront.length_le fun hlength => hne (hfront.eq_of_length hlength)
  rw [raw_eq] at hfront hless
  rcases Nat.lt_or_ge front.length (m.head.length + 4) with hshort | hlong
  · rw [readRequest, findFrom_front hfront (h.findFrom_head m.body) hshort]
  · -- The head has come whole; what lacks is the end of the body.
    obtain ⟨rest, rfl⟩ : ∃ rest, front = m.head ++ (crlf ++ (crlf ++ rest)) := by
      have hhead : m.head ++ (crlf ++ crlf) <+: front := by
        apply List.prefix_of_prefix_length_le _ hfront (by simpa using hlong)
        exact ⟨m.body, by simp⟩
      obtain ⟨rest, hrest⟩ := hhead
      exact ⟨rest, by rw [← hrest]; simp⟩
    rw [h.read_after_head, if_pos (by simpa using hless)]

end RequestMessage

end AasSign

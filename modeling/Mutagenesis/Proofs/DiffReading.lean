import Mutagenesis.Proofs.HunkHeader
import Mutagenesis.Proofs.Lines

/-!
# Reading a written diff

`readAll` is the reader of a diff from any point on, so every lemma here is an equation over the
rest of the input. The name of a file is read back from its two header lines (`readAll_names`). A
hunk is written line by line. If none of its lines but the last ends in a
carriage return that stands alone, the reader gives the lines back (`readAll_hunk`). Otherwise the
reader takes two written lines for one, comes out with lines still to be read, and refuses the diff
(`readAll_hunk_joined`): such a hunk is never read as another one.
-/

set_option autoImplicit false

namespace Mutagenesis

namespace Diff

/-- Reads lines from a point on and ends the diff there. -/
def readLines (r : Reading) (lines : List (List Char)) : Except PatchFault (List FilePatch) := do
  let r ← lines.foldlM readLine r
  finish r

/-- Reads a text from a point on and ends the diff there. -/
def readAll (r : Reading) (cs : List Char) : Except PatchFault (List FilePatch) :=
  readLines r (Text.lines cs)

theorem parse_eq_readAll (diff : List Char) : parse diff = readAll ⟨[], .outside⟩ diff := rfl

theorem readLines_nil (r : Reading) : readLines r [] = finish r := rfl

theorem readLines_cons (r : Reading) (line : List Char) (lines : List (List Char)) :
    readLines r (line :: lines) = readLine r line >>= fun r' => readLines r' lines := by
  rw [readLines, List.foldlM_cons, bind_assoc]
  rfl

/-- A line that is read leaves the rest to be read. -/
theorem readLines_cons_ok {r r' : Reading} {line : List Char} (h : readLine r line = .ok r')
    (lines : List (List Char)) : readLines r (line :: lines) = readLines r' lines := by
  rw [readLines_cons, h]
  rfl

/-- The first line that is refused ends the reading. -/
theorem readLines_cons_error {r : Reading} {line : List Char} {fault : PatchFault}
    (h : readLine r line = .error fault) (lines : List (List Char)) :
    readLines r (line :: lines) = .error fault := by
  rw [readLines_cons, h]
  rfl

end Diff

/-- The first line of a text starts as the text does. -/
theorem Text.head?_of_lines_eq {cs line : List Char} {rest : List (List Char)}
    (h : Text.lines cs = line :: rest) : line.head? = cs.head? := by
  have hline : line ≠ [] := (Text.isLine_of_mem_lines (by rw [h]; simp)).1
  have hcs : cs = line ++ rest.flatten := by
    rw [← Text.flatten_lines cs, h, List.flatten_cons]
  cases line with
  | nil => exact absurd rfl hline
  | cons c cs' => rw [hcs]; rfl

namespace LineRole

/-- The character in front of a line of a hunk. -/
def mark : LineRole → Char
  | keep => ' '
  | remove => '-'
  | add => '+'

/-- How many lines, old and new together, a line of a hunk counts for. -/
def weight : LineRole → Nat
  | keep => 2
  | remove => 1
  | add => 1

theorem weight_pos (role : LineRole) : 0 < role.weight := by cases role <;> decide

theorem mark_ne_newline (role : LineRole) : role.mark ≠ '\n' := by cases role <;> decide

end LineRole

variable {line : HunkLine} {lines : List HunkLine} {o : Diff.OpenHunk}

namespace HunkLine

/-- A line of a hunk as it is written. -/
def write (line : HunkLine) : List Char :=
  LineDiff.writeLine line.role.mark line.text

/-- Its text ends in a carriage return. -/
def Returns (line : HunkLine) : Prop :=
  line.text.getLast? = some '\r'

instance (line : HunkLine) : Decidable line.Returns :=
  inferInstanceAs (Decidable (_ = _))

/-- The written lines of a hunk. -/
def body (lines : List HunkLine) : List Char :=
  (lines.map write).flatten

@[simp]
theorem body_nil : body [] = [] := rfl

@[simp]
theorem body_cons (line : HunkLine) (lines : List HunkLine) :
    body (line :: lines) = line.write ++ body lines := rfl

/-- The text of two runs of lines is their texts, one after the other. -/
@[simp]
theorem body_append (as bs : List HunkLine) : body (as ++ bs) = body as ++ body bs := by
  simp [body]

/-- How many lines of the old file the lines of a hunk cover. -/
def oldCount (lines : List HunkLine) : Nat :=
  (lines.filter (·.role ≠ .add)).length

/-- How many lines of the new file the lines of a hunk make. -/
def newCount (lines : List HunkLine) : Nat :=
  (lines.filter (·.role ≠ .remove)).length

/-- Every line but an added one counts for the old file. -/
theorem oldCount_cons (line : HunkLine) (lines : List HunkLine) :
    oldCount (line :: lines) = (if line.role = .add then 0 else 1) + oldCount lines := by
  by_cases h : line.role = .add <;> simp [oldCount, h, Nat.add_comm]

/-- Every line but a removed one counts for the new file. -/
theorem newCount_cons (line : HunkLine) (lines : List HunkLine) :
    newCount (line :: lines) = (if line.role = .remove then 0 else 1) + newCount lines := by
  by_cases h : line.role = .remove <;> simp [newCount, h, Nat.add_comm]

/-- No line but the last one ends in a carriage return, so each starts on a line of its own. -/
def Separate (lines : List HunkLine) : Prop :=
  ∀ line ∈ lines.dropLast, ¬line.Returns

instance (lines : List HunkLine) : Decidable (Separate lines) :=
  inferInstanceAs (Decidable (∀ line ∈ lines.dropLast, _))

theorem Separate.tail (h : Separate (line :: lines)) : Separate lines := by
  cases lines with
  | nil => exact fun line hline => absurd hline (by simp)
  | cons next rest => exact fun other hother => h other (List.mem_cons_of_mem _ hother)

/-- In separate lines, what follows a line that ends in a carriage return is nothing. -/
theorem Separate.eq_nil (h : Separate (line :: lines)) (hreturn : line.Returns) : lines = [] := by
  cases lines with
  | nil => rfl
  | cons next rest => exact absurd hreturn (h line List.mem_cons_self)

/-- The line after a line that has no end. -/
def marker : List Char := "\\ No newline at end of file\n".toList

/-- A mark in front of a text without line breaks brings none. -/
theorem mark_cons_unbroken (role : LineRole) {cs : List Char} (h : '\n' ∉ cs) :
    '\n' ∉ role.mark :: cs := by
  simpa [Ne.symm role.mark_ne_newline] using h

/-- A line with a newline is written as one line. -/
theorem lines_write_ended (hline : Text.IsLine line.text) (hend : line.text.getLast? = some '\n')
    (rest : List Char) :
    Text.lines (line.write ++ rest) = (line.role.mark :: line.text) :: Text.lines rest := by
  have hwrite : line.write = line.role.mark :: line.text := by
    simp [write, LineDiff.writeLine, hend]
  rw [hwrite]
  obtain ⟨role, text⟩ := line
  obtain ⟨start, rfl⟩ := List.getLast?_eq_some_iff.mp hend
  have hstart : '\n' ∉ start := by simpa using hline.2
  have hlines := Text.lines_append_newline (mark_cons_unbroken role hstart) rest
  simpa using hlines

theorem noNewline_eq : LineDiff.noNewline = '\n' :: marker := by decide

/-- The note on a missing newline is a line of its own. -/
theorem lines_marker (rest : List Char) :
    Text.lines (marker ++ rest) = marker :: Text.lines rest := by
  rw [Text.lines_append_of_ended _ _ (by decide)]
  have hmarker : Text.lines marker = [marker] := by decide
  rw [hmarker]
  rfl

/-- A line without an end is written as one line with the marker after it. -/
theorem lines_write_open (hline : Text.IsLine line.text) (hnewline : line.text.getLast? ≠ some '\n')
    (hreturn : ¬line.Returns) (rest : List Char) :
    Text.lines (line.write ++ rest) =
      (line.role.mark :: (line.text ++ ['\n'])) :: marker :: Text.lines rest := by
  have hwrite : line.write = line.role.mark :: line.text ++ LineDiff.noNewline := by
    unfold write LineDiff.writeLine
    split
    · next h => exact absurd h hnewline
    · next h => exact absurd h hreturn
    · rfl
  rw [hwrite, noNewline_eq, List.append_assoc, List.cons_append, List.cons_append,
    ← List.cons_append,
    Text.lines_append_newline (mark_cons_unbroken line.role (hline.unbroken hnewline)),
    lines_marker]
  rfl

/-- A line that ends in a carriage return is joined to the one written after it. -/
theorem lines_write_returns (hline : Text.IsLine line.text) (hreturn : line.Returns)
    (rest : List Char) :
    Text.lines (line.write ++ rest) =
      Text.glue (line.role.mark :: line.text) (Text.lines rest) := by
  have hnewline : line.text.getLast? ≠ some '\n' := by
    rw [hreturn]
    decide
  have hwrite : line.write = line.role.mark :: line.text := by
    unfold write LineDiff.writeLine
    split
    · rfl
    · rfl
    · next h => exact absurd hreturn h
  rw [hwrite, Text.lines_append_of_unbroken (by simp)
    (mark_cons_unbroken line.role (hline.unbroken hnewline))]

end HunkLine

variable {tail : List Char}

namespace Diff

/-- An open hunk after one more line. -/
def OpenHunk.pushed (o : OpenHunk) (line : HunkLine) : OpenHunk :=
  ⟨{ o.hunk with lines := o.hunk.lines ++ [line] },
    if line.role = .add then o.oldLeft else o.oldLeft - 1,
    if line.role = .remove then o.newLeft else o.newLeft - 1⟩

/-- The header left room for a line. -/
def OpenHunk.HasRoom (o : OpenHunk) (line : HunkLine) : Prop :=
  (line.role ≠ .add → 0 < o.oldLeft) ∧ (line.role ≠ .remove → 0 < o.newLeft)

/-- A line that the hunk has room for is taken, and the counts that are left go down. -/
theorem OpenHunk.push_eq (h : o.HasRoom line) : o.push line = .ok (o.pushed line) := by
  obtain ⟨role, text⟩ := line
  obtain ⟨hold, hnew⟩ := h
  cases role with
  | keep =>
    have h1 : o.oldLeft ≠ 0 := Nat.pos_iff_ne_zero.mp (hold (by simp))
    have h2 : o.newLeft ≠ 0 := Nat.pos_iff_ne_zero.mp (hnew (by simp))
    simp [OpenHunk.push, OpenHunk.pushed, h1, h2]
  | remove =>
    have h1 : o.oldLeft ≠ 0 := Nat.pos_iff_ne_zero.mp (hold (by simp))
    simp [OpenHunk.push, OpenHunk.pushed, h1]
  | add =>
    have h2 : o.newLeft ≠ 0 := Nat.pos_iff_ne_zero.mp (hnew (by simp))
    simp [OpenHunk.push, OpenHunk.pushed, h2]

/-- A hunk with room for a line is not read to its end. -/
theorem OpenHunk.HasRoom.unfinished (h : o.HasRoom line) : ¬(o.oldLeft = 0 ∧ o.newLeft = 0) := by
  rintro ⟨hold, hnew⟩
  obtain ⟨role, text⟩ := line
  cases role with
  | keep => exact absurd hold (Nat.pos_iff_ne_zero.mp (h.1 (by simp)))
  | remove => exact absurd hold (Nat.pos_iff_ne_zero.mp (h.1 (by simp)))
  | add => exact absurd hnew (Nat.pos_iff_ne_zero.mp (h.2 (by simp)))

/-- A mark and a text that is not empty are read as the line they stand for. -/
theorem OpenHunk.read_mark (o : OpenHunk) (role : LineRole) {text : List Char} (h : text ≠ []) :
    o.read (role.mark :: text) = o.push ⟨role, text⟩ := by
  have hlength : ¬(role.mark :: text).length ≤ 1 := by
    have := List.length_pos_iff.mpr h
    simp only [List.length_cons]
    omega
  cases role <;> simp only [OpenHunk.read, hlength, if_false] <;> rfl

/-- Inside a hunk, a text behind a mark is read as a line of that role. -/
theorem readLine_mark {role : LineRole} {text : List Char} (hne : text ≠ [])
    (hroom : o.HasRoom ⟨role, text⟩) (ps : List FilePatch) :
    readLine ⟨ps, .inside o⟩ (role.mark :: text) = .ok ⟨ps, .inside (o.pushed ⟨role, text⟩)⟩ := by
  simp only [readLine, if_neg hroom.unfinished, o.read_mark role hne, OpenHunk.push_eq hroom]
  rfl

/-- The last newline is cut off a line, unless a carriage return stands before it. -/
theorem withoutLineEnd_append {text : List Char} (h : text.getLast? ≠ some '\r') :
    Text.withoutLineEnd (text ++ ['\n']) = text := by
  unfold Text.withoutLineEnd
  rw [List.reverse_append]
  cases hrev : text.reverse with
  | nil =>
    obtain rfl : text = [] := by simpa using hrev
    rfl
  | cons c cs =>
    have hlast : text.getLast? = some c := by rw [List.getLast?_eq_head?_reverse, hrev]; rfl
    have hc : c ≠ '\r' := by rintro rfl; exact h hlast
    have htext : text = (c :: cs).reverse := by rw [← hrev, List.reverse_reverse]
    rw [htext]
    split
    · next rest heq => simp [hc] at heq
    · next rest heq => simpa using heq.symm
    · next hno => exact absurd rfl (hno (c :: cs))

/-- The note on a missing newline takes back the newline of the line just read. -/
theorem OpenHunk.takeNewline_pushed (o : OpenHunk) (role : LineRole) {text : List Char}
    (h : text.getLast? ≠ some '\r') :
    (o.pushed ⟨role, text ++ ['\n']⟩).takeNewline = .ok (o.pushed ⟨role, text⟩) := by
  have hlines : Diff.takeNewline (o.hunk.lines ++ [⟨role, text ++ ['\n']⟩]) =
      .ok (o.hunk.lines ++ [⟨role, text⟩]) := by
    simp [Diff.takeNewline, withoutLineEnd_append h]
  unfold OpenHunk.takeNewline OpenHunk.pushed
  rw [hlines]
  rfl

/-- The marker is read alike whether the hunk is read to its end or not. -/
theorem readLine_marker {o o' : OpenHunk} (h : o.takeNewline = .ok o') (ps : List FilePatch) :
    readLine ⟨ps, .inside o⟩ HunkLine.marker = .ok ⟨ps, .inside o'⟩ := by
  have hhead : HunkLine.marker.head? = some '\\' := by decide
  have hread : o.read HunkLine.marker = o.takeNewline := by
    simp only [OpenHunk.read, hhead]
  by_cases hdone : o.oldLeft = 0 ∧ o.newLeft = 0
  · simp only [readLine, if_pos hdone, if_pos hhead, h]
    rfl
  · simp only [readLine, if_neg hdone, hread, h]
    rfl

/-- A written line is read as it is, unless it is joined to what follows. -/
theorem readAll_line {rest : List Char} (hline : Text.IsLine line.text) (hroom : o.HasRoom line)
    (hjoin : line.Returns → rest = []) (ps : List FilePatch) :
    readAll ⟨ps, .inside o⟩ (line.write ++ rest) =
      readAll ⟨ps, .inside (o.pushed line)⟩ rest := by
  obtain ⟨role, text⟩ := line
  unfold readAll
  by_cases hreturn : HunkLine.Returns ⟨role, text⟩
  · obtain rfl := hjoin hreturn
    rw [HunkLine.lines_write_returns hline hreturn]
    exact readLines_cons_ok (readLine_mark hline.1 hroom ps) []
  · by_cases hnewline : text.getLast? = some '\n'
    · rw [HunkLine.lines_write_ended hline hnewline]
      exact readLines_cons_ok (readLine_mark hline.1 hroom ps) _
    · rw [HunkLine.lines_write_open hline hnewline hreturn]
      have hpushed : readLine ⟨ps, .inside o⟩ (role.mark :: (text ++ ['\n'])) =
          .ok ⟨ps, .inside (o.pushed ⟨role, text ++ ['\n']⟩)⟩ :=
        readLine_mark (by simp) (show o.HasRoom ⟨role, text ++ ['\n']⟩ from hroom) ps
      rw [readLines_cons_ok hpushed,
        readLines_cons_ok (readLine_marker (o.takeNewline_pushed role hreturn) ps)]

/-- An open hunk after all of its lines. -/
def OpenHunk.filled (o : OpenHunk) (lines : List HunkLine) : OpenHunk :=
  ⟨{ o.hunk with lines := o.hunk.lines ++ lines }, 0, 0⟩

/-- To fill a hunk with lines is to push the first one and to fill in the others. -/
theorem OpenHunk.filled_pushed (o : OpenHunk) (line : HunkLine) (lines : List HunkLine) :
    (o.pushed line).filled lines = o.filled (line :: lines) := by
  simp [OpenHunk.filled, OpenHunk.pushed]

/-- Separate lines, as many as the header says, are read as they are. -/
theorem readAll_body (hlines : ∀ line ∈ lines, Text.IsLine line.text)
    (hseparate : HunkLine.Separate lines)
    (htail : ∀ line ∈ lines.getLast?, line.Returns → tail = [])
    (hold : o.oldLeft = HunkLine.oldCount lines) (hnew : o.newLeft = HunkLine.newCount lines)
    (ps : List FilePatch) :
    readAll ⟨ps, .inside o⟩ (HunkLine.body lines ++ tail) =
      readAll ⟨ps, .inside (o.filled lines)⟩ tail := by
  induction lines generalizing o with
  | nil =>
    obtain ⟨hunk, oldLeft, newLeft⟩ := o
    obtain rfl : oldLeft = 0 := hold
    obtain rfl : newLeft = 0 := hnew
    simp [OpenHunk.filled]
  | cons line rest ih =>
    rw [HunkLine.oldCount_cons] at hold
    rw [HunkLine.newCount_cons] at hnew
    have hroom : o.HasRoom line := by
      constructor
      · intro hrole
        rw [if_neg hrole] at hold
        omega
      · intro hrole
        rw [if_neg hrole] at hnew
        omega
    have hjoin : line.Returns → HunkLine.body rest ++ tail = [] := by
      intro hreturn
      obtain rfl := hseparate.eq_nil hreturn
      simpa using htail line (by simp) hreturn
    have hrest : ∀ last ∈ rest.getLast?, last.Returns → tail = [] := by
      intro last hlast
      refine htail last ?_
      rw [List.getLast?_cons, Option.mem_def.mp hlast]
      rfl
    have hcountOld : (o.pushed line).oldLeft = HunkLine.oldCount rest := by
      simp only [OpenHunk.pushed]
      split <;> simp_all
    have hcountNew : (o.pushed line).newLeft = HunkLine.newCount rest := by
      simp only [OpenHunk.pushed]
      split <;> simp_all
    rw [HunkLine.body_cons, List.append_assoc,
      readAll_line (hlines line (by simp)) hroom hjoin,
      ih (fun other hother => hlines other (by simp [hother])) hseparate.tail hrest hcountOld
        hcountNew,
      OpenHunk.filled_pushed]

/-- How many lines, old and new together, the reader counts for a line of a hunk. -/
def lineWeight (line : List Char) : Nat :=
  match line.head? with
  | some ' ' => 2
  | some '\n' => 2
  | some '-' => 1
  | some '+' => 1
  | _ => 0

/-- A line behind a mark weighs what its role does. -/
theorem lineWeight_mark (role : LineRole) (text : List Char) :
    lineWeight (role.mark :: text) = role.weight := by
  cases role <;> rfl

theorem lineWeight_marker : lineWeight HunkLine.marker = 0 := by decide

/-- A line that is taken uses up its weight of the counts that are left. -/
theorem OpenHunk.push_left {o o' : OpenHunk} (h : o.push line = .ok o') :
    o'.oldLeft + o'.newLeft + line.role.weight = o.oldLeft + o.newLeft := by
  obtain ⟨role, text⟩ := line
  cases role with
  | keep =>
    simp only [OpenHunk.push] at h
    split at h
    · cases h
    · cases h
      simp only [LineRole.weight]
      omega
  | remove =>
    simp only [OpenHunk.push] at h
    split at h
    · cases h
    · cases h
      simp only [LineRole.weight]
      omega
  | add =>
    simp only [OpenHunk.push] at h
    split at h
    · cases h
    · cases h
      simp only [LineRole.weight]
      omega

/-- The note on a missing newline leaves the counts as they are. -/
theorem OpenHunk.takeNewline_left {o o' : OpenHunk} (h : o.takeNewline = .ok o') :
    o'.oldLeft = o.oldLeft ∧ o'.newLeft = o.newLeft := by
  unfold OpenHunk.takeNewline at h
  cases hlines : Diff.takeNewline o.hunk.lines with
  | error fault => rw [hlines] at h; cases h
  | ok lines => rw [hlines] at h; cases h; exact ⟨rfl, rfl⟩

/-- A line that is read takes its weight from what is left to be read. -/
theorem OpenHunk.read_left {o o' : OpenHunk} {line : List Char} (h : o.read line = .ok o') :
    o'.oldLeft + o'.newLeft + lineWeight line = o.oldLeft + o.newLeft := by
  unfold OpenHunk.read at h
  dsimp only at h
  generalize (if line.length ≤ 1 then ['\n'] else line.drop 1) = text at h
  unfold lineWeight
  split at h
  · next hhead => rw [hhead]; exact OpenHunk.push_left h
  · next hhead => rw [hhead]; exact OpenHunk.push_left h
  · next hhead => rw [hhead]; exact OpenHunk.push_left h
  · next hhead => rw [hhead]; exact OpenHunk.push_left h
  · next hhead =>
    obtain ⟨hold, hnew⟩ := OpenHunk.takeNewline_left h
    rw [hhead, hold, hnew]
    rfl
  · cases h

/-- What all items of a list weigh together. -/
def totalWeight {α : Type} (weight : α → Nat) : List α → Nat
  | [] => 0
  | x :: xs => weight x + totalWeight weight xs

@[simp]
theorem totalWeight_nil {α : Type} (weight : α → Nat) : totalWeight weight [] = 0 := rfl

@[simp]
theorem totalWeight_cons {α : Type} (weight : α → Nat) (x : α) (xs : List α) :
    totalWeight weight (x :: xs) = weight x + totalWeight weight xs := rfl

/-- The reader refuses a diff whose lines weigh less than an open hunk still needs, if what follows
them is no line of a hunk. -/
theorem readLines_short {lines rest : List (List Char)}
    (hshort : totalWeight lineWeight lines < o.oldLeft + o.newLeft)
    (hrest : ∀ line ∈ rest.head?, line.head? = some '@') (ps : List FilePatch) :
    ∃ fault, readLines ⟨ps, .inside o⟩ (lines ++ rest) = .error fault := by
  induction lines generalizing o with
  | nil =>
    have hopen : ¬(o.oldLeft = 0 ∧ o.newLeft = 0) := by
      simp only [totalWeight_nil] at hshort
      omega
    cases rest with
    | nil =>
      refine ⟨.endOfHunk, ?_⟩
      simp only [List.append_nil, readLines_nil, finish, if_neg hopen]
    | cons line rest =>
      have hhead := hrest line rfl
      have hread : ∃ fault, o.read line = .error fault := by
        unfold OpenHunk.read
        rw [hhead]
        exact ⟨_, rfl⟩
      obtain ⟨fault, hread⟩ := hread
      refine ⟨fault, readLines_cons_error ?_ rest⟩
      simp only [readLine, if_neg hopen, hread]
      rfl
  | cons line lines ih =>
    simp only [totalWeight_cons] at hshort
    have hopen : ¬(o.oldLeft = 0 ∧ o.newLeft = 0) := by omega
    cases hread : o.read line with
    | error fault =>
      refine ⟨fault, readLines_cons_error ?_ _⟩
      simp only [readLine, if_neg hopen, hread]
      rfl
    | ok o' =>
      have hleft := OpenHunk.read_left hread
      have hstep : readLine ⟨ps, .inside o⟩ line = .ok ⟨ps, .inside o'⟩ := by
        simp only [readLine, if_neg hopen, hread]
        rfl
      rw [List.cons_append, readLines_cons_ok hstep]
      exact ih (by omega)

/-- A line weighs what the role of its mark does. -/
theorem lineWeight_of_head {line : List Char} {role : LineRole}
    (h : line.head? = some role.mark) : lineWeight line = role.weight := by
  cases line with
  | nil => simp at h
  | cons c cs =>
    obtain rfl : c = role.mark := by simpa using h
    exact lineWeight_mark role cs

end Diff

namespace HunkLine

theorem head?_write (line : HunkLine) : line.write.head? = some line.role.mark := by
  unfold write LineDiff.writeLine
  split <;> rfl

/-- A hunk whose text has no lines is empty. -/
theorem eq_nil_of_lines_body (h : Text.lines (body lines) = []) : lines = [] := by
  cases lines with
  | nil => rfl
  | cons line rest =>
    have hflat := Text.flatten_lines (body (line :: rest))
    have hhead := head?_write line
    rw [h, body_cons] at hflat
    simp [List.append_eq_nil_iff.mp hflat.symm] at hhead

/-- The first of the written lines starts with the mark of a line. -/
theorem lineWeight_pos_of_lines_body {first : List Char} {others : List (List Char)}
    (h : Text.lines (body lines) = first :: others) : 0 < Diff.lineWeight first := by
  cases lines with
  | nil => simp [Text.lines] at h
  | cons line rest =>
    have hhead := Text.head?_of_lines_eq h
    rw [body_cons, List.head?_append, head?_write] at hhead
    rw [Diff.lineWeight_of_head hhead]
    exact line.role.weight_pos

/-- A line that does not end in a carriage return is written on lines of its own. -/
theorem weight_lines_body_cons (hline : Text.IsLine line.text) (hreturn : ¬line.Returns)
    (rest : List HunkLine) :
    Diff.totalWeight Diff.lineWeight (Text.lines (body (line :: rest))) =
      line.role.weight + Diff.totalWeight Diff.lineWeight (Text.lines (body rest)) := by
  by_cases hnewline : line.text.getLast? = some '\n'
  · rw [body_cons, lines_write_ended hline hnewline]
    simp [Diff.lineWeight_mark]
  · rw [body_cons, lines_write_open hline hnewline hreturn]
    simp [Diff.lineWeight_mark, Diff.lineWeight_marker]

/-- A line that ends with no carriage return can stand in front of separate lines. -/
theorem separate_cons {rest : List HunkLine} (hreturn : ¬line.Returns) (h : Separate rest) :
    Separate (line :: rest) := by
  intro other hother
  cases rest with
  | nil => simp at hother
  | cons next rest =>
    rcases List.mem_cons.mp hother with rfl | hother
    · exact hreturn
    · exact h other hother

/-- The written lines weigh no more than the lines, and less if two of them are joined. -/
theorem weight_lines_body (h : ∀ line ∈ lines, Text.IsLine line.text) :
    Diff.totalWeight Diff.lineWeight (Text.lines (body lines)) ≤
        Diff.totalWeight (fun line => line.role.weight) lines ∧
      (¬Separate lines →
        Diff.totalWeight Diff.lineWeight (Text.lines (body lines)) <
          Diff.totalWeight (fun line => line.role.weight) lines) := by
  induction lines with
  | nil => exact ⟨Nat.le_refl _, fun hno => absurd (fun line hline => by simp at hline) hno⟩
  | cons line rest ih =>
    obtain ⟨hle, hlt⟩ := ih fun other hother => h other (by simp [hother])
    have hline := h line (by simp)
    by_cases hreturn : line.Returns
    · rw [body_cons, lines_write_returns hline hreturn]
      cases hlines : Text.lines (body rest) with
      | nil =>
        obtain rfl := eq_nil_of_lines_body hlines
        refine ⟨by simp [Text.glue, Diff.lineWeight_mark], fun hno => absurd ?_ hno⟩
        exact fun other hother => absurd hother (by simp)
      | cons first others =>
        -- the first line of the rest loses its weight to the line it is joined to
        have hfirst := lineWeight_pos_of_lines_body hlines
        have hglued : Diff.lineWeight (line.role.mark :: line.text ++ first) = line.role.weight :=
          Diff.lineWeight_mark line.role _
        rw [hlines] at hle
        simp only [Diff.totalWeight_cons] at hle ⊢
        simp only [Text.glue, Diff.totalWeight_cons, hglued]
        omega
    · rw [weight_lines_body_cons hline hreturn, Diff.totalWeight_cons]
      refine ⟨by omega, fun hno => ?_⟩
      have hless := hlt fun hrest => hno (separate_cons hreturn hrest)
      omega

/-- The weight of all lines is their count in the old file and in the new one. -/
theorem weight_eq_counts (lines : List HunkLine) :
    Diff.totalWeight (fun line => line.role.weight) lines = oldCount lines + newCount lines := by
  induction lines with
  | nil => rfl
  | cons line rest ih =>
    obtain ⟨role, text⟩ := line
    rw [oldCount_cons, newCount_cons, Diff.totalWeight_cons, ih]
    cases role <;> simp [LineRole.weight] <;> omega

/-- A line that does not end with a carriage return is written with a newline at its end. -/
theorem write_ended (h : ¬line.Returns) : line.write.getLast? = some '\n' := by
  unfold write LineDiff.writeLine
  split
  · next hend => simp [List.getLast?_cons, hend]
  · next hend => exact absurd hend h
  · have hnote : LineDiff.noNewline.getLast? = some '\n' := by decide
    rw [List.getLast?_append, hnote]
    rfl

/-- Written lines end in a newline unless the last one ends in a carriage return. -/
theorem body_ended (hne : lines ≠ []) (hlast : ∀ line ∈ lines.getLast?, ¬line.Returns) :
    (body lines).getLast? = some '\n' := by
  obtain ⟨start, last, rfl⟩ : ∃ start last, lines = start ++ [last] :=
    ⟨_, _, (List.dropLast_concat_getLast hne).symm⟩
  have hwrite := write_ended (hlast last (by simp))
  simp [List.getLast?_append, hwrite]

end HunkLine

namespace LineDiff

/-- A header is a line of its own. -/
theorem lines_header (oldStart oldStop newStart newStop : Nat) (rest : List Char) :
    Text.lines (header oldStart oldStop newStart newStop ++ rest) =
      header oldStart oldStop newStart newStop :: Text.lines rest := by
  have hrange : ∀ start stop, '\n' ∉ writeRange start stop := by
    intro start stop hmem
    exact absurd (not_blank_of_mem_writeRange hmem) (by decide)
  have hchars : header oldStart oldStop newStart newStop =
      ("@@ -".toList ++ writeRange oldStart oldStop ++ " +".toList ++
        writeRange newStart newStop ++ " @@".toList) ++ ['\n'] := by
    unfold header
    simp
  rw [hchars, List.append_assoc, List.singleton_append, Text.lines_append_newline]
  simp [hrange]

end LineDiff

namespace Diff

theorem head?_header (oldStart oldStop newStart newStop : Nat) :
    (LineDiff.header oldStart oldStop newStart newStop).head? = some '@' := by
  unfold LineDiff.header
  simp

/-- Outside a hunk, a written header opens a hunk with the numbers that it reads to. -/
theorem readOutside_header (ps : List FilePatch) (hps : ps ≠ [])
    (oldStart oldStop newStart newStop : Nat) :
    readOutside ps (LineDiff.header oldStart oldStop newStart newStop) =
      (hunkHeader (LineDiff.header oldStart oldStop newStart newStop)).map fun numbers =>
        ⟨ps, .inside ⟨⟨numbers.1, numbers.2.1, []⟩, numbers.2.1, numbers.2.2⟩⟩ := by
  have hdashes : ['-', '-', '-', ' '].isPrefixOf
      (LineDiff.header oldStart oldStop newStart newStop) = false := by
    unfold LineDiff.header
    simp [List.isPrefixOf]
  have hats : ['@', '@'].isPrefixOf (LineDiff.header oldStart oldStop newStart newStop) = true := by
    unfold LineDiff.header
    simp [List.isPrefixOf]
  have hempty : ps.isEmpty = false := by simpa using hps
  unfold readOutside
  simp only [hdashes, hats, hempty, Bool.false_eq_true, if_false, if_true]
  cases hunkHeader (LineDiff.header oldStart oldStop newStart newStop) <;> rfl

/-- A hunk that is read to its end belongs to its patch once a line follows that is no marker. -/
theorem readAll_settled (hold : o.oldLeft = 0) (hnew : o.newLeft = 0) (ps : List FilePatch)
    (htail : tail.head? ≠ some '\\') :
    readAll ⟨ps, .inside o⟩ tail = readAll ⟨addHunk ps o.hunk, .outside⟩ tail := by
  unfold readAll
  cases hlines : Text.lines tail with
  | nil => simp [readLines_nil, finish, hold, hnew]
  | cons line rest =>
    have hhead : line.head? ≠ some '\\' := by rwa [Text.head?_of_lines_eq hlines]
    have hstep : readLine ⟨ps, .inside o⟩ line = readLine ⟨addHunk ps o.hunk, .outside⟩ line := by
      simp only [readLine, hold, hnew, and_self, if_true, if_neg hhead]
    rw [readLines_cons, readLines_cons, hstep]

/-- A hunk is added to the last patch. -/
theorem addHunk_append (ps : List FilePatch) (path : String) (hunks : List Hunk) (h : Hunk) :
    addHunk (ps ++ [⟨path, hunks⟩]) h = ps ++ [⟨path, hunks ++ [h]⟩] := by
  simp [addHunk]

/-- A written hunk is read as it is, if its lines are separate and its numbers fit. -/
theorem readAll_hunk {oldStart oldStop newStart newStop : Nat}
    (hlines : ∀ line ∈ lines, Text.IsLine line.text) (hseparate : HunkLine.Separate lines)
    (hlast : ∀ line ∈ lines.getLast?, line.Returns → tail = [])
    (hold : oldStop - oldStart = HunkLine.oldCount lines)
    (hnew : newStop - newStart = HunkLine.newCount lines)
    (hfits : LineDiff.Fits oldStart oldStop ∧ LineDiff.Fits newStart newStop)
    (htail : tail.head? ≠ some '\\') (ps : List FilePatch) (path : String) (hunks : List Hunk) :
    readAll ⟨ps ++ [⟨path, hunks⟩], .outside⟩
        (LineDiff.header oldStart oldStop newStart newStop ++ (HunkLine.body lines ++ tail)) =
      readAll ⟨ps ++ [⟨path, hunks ++
        [⟨LineDiff.rangeStart oldStart oldStop, oldStop - oldStart, lines⟩]⟩], .outside⟩ tail := by
  rcases LineDiff.hunkHeader_header oldStart oldStop newStart newStop with
    ⟨-, -, hheader⟩ | ⟨hno, -⟩
  · have hopen : readLine ⟨ps ++ [⟨path, hunks⟩], .outside⟩
        (LineDiff.header oldStart oldStop newStart newStop) =
          .ok ⟨ps ++ [⟨path, hunks⟩], .inside ⟨⟨LineDiff.rangeStart oldStart oldStop,
            oldStop - oldStart, []⟩, oldStop - oldStart, newStop - newStart⟩⟩ := by
      rw [readLine, readOutside_header _ (by simp), hheader]
      rfl
    have hread := readLines_cons_ok hopen (Text.lines (HunkLine.body lines ++ tail))
    rw [readAll, LineDiff.lines_header, hread]
    change readAll _ (HunkLine.body lines ++ tail) = _
    rw [readAll_body hlines hseparate hlast hold hnew, readAll_settled rfl rfl _ htail,
      addHunk_append]
    rfl
  · exact absurd hfits hno

/-- A hunk is refused if its numbers do not fit. -/
theorem readAll_hunk_unfit {oldStart oldStop newStart newStop : Nat}
    (h : ¬(LineDiff.Fits oldStart oldStop ∧ LineDiff.Fits newStart newStop))
    (ps : List FilePatch) (hps : ps ≠ []) (rest : List Char) :
    ∃ fault, readAll ⟨ps, .outside⟩
      (LineDiff.header oldStart oldStop newStart newStop ++ rest) = .error fault := by
  rcases LineDiff.hunkHeader_header oldStart oldStop newStart newStop with
    ⟨hold, hnew, -⟩ | ⟨-, fault, hheader⟩
  · exact absurd ⟨hold, hnew⟩ h
  · refine ⟨fault, ?_⟩
    rw [readAll, LineDiff.lines_header]
    refine readLines_cons_error ?_ _
    rw [readLine, readOutside_header _ hps, hheader]
    rfl

/-- A hunk is refused if two of its lines are joined, whatever its lines and its context are. -/
theorem readAll_hunk_joined {oldStart oldStop newStart newStop : Nat}
    (hlines : ∀ line ∈ lines, Text.IsLine line.text) (hjoined : ¬HunkLine.Separate lines)
    (hlast : ∀ line ∈ lines.getLast?, line.Returns → tail = [])
    (hold : oldStop - oldStart = HunkLine.oldCount lines)
    (hnew : newStop - newStart = HunkLine.newCount lines) (htail : ∀ c ∈ tail.head?, c = '@')
    (ps : List FilePatch) (hps : ps ≠ []) :
    ∃ fault, readAll ⟨ps, .outside⟩
      (LineDiff.header oldStart oldStop newStart newStop ++ (HunkLine.body lines ++ tail)) =
        .error fault := by
  rcases LineDiff.hunkHeader_header oldStart oldStop newStart newStop with
    ⟨-, -, hheader⟩ | ⟨hno, -⟩
  · have hsplit : Text.lines (HunkLine.body lines ++ tail) =
        Text.lines (HunkLine.body lines) ++ Text.lines tail := by
      by_cases hnil : tail = []
      · simp [hnil, Text.lines]
      · have hne : lines ≠ [] := by
          rintro rfl
          exact hjoined fun line hline => by simp at hline
        exact Text.lines_append_of_ended _ _ (HunkLine.body_ended hne fun line hline hreturn =>
          hnil (hlast line hline hreturn))
    have hopen : readLine ⟨ps, .outside⟩ (LineDiff.header oldStart oldStop newStart newStop) =
        .ok ⟨ps, .inside ⟨⟨LineDiff.rangeStart oldStart oldStop, oldStop - oldStart, []⟩,
          oldStop - oldStart, newStop - newStart⟩⟩ := by
      rw [readLine, readOutside_header _ hps, hheader]
      rfl
    have hshort := (HunkLine.weight_lines_body hlines).2 hjoined
    rw [HunkLine.weight_eq_counts, ← hold, ← hnew] at hshort
    rw [readAll, LineDiff.lines_header, readLines_cons_ok hopen, hsplit]
    refine readLines_short hshort (fun line hline => ?_) ps
    obtain ⟨rest, hrest⟩ := List.head?_eq_some_iff.mp hline
    have hhead := Text.head?_of_lines_eq hrest
    cases hc : tail.head? with
    | none =>
      have hnil : tail = [] := List.head?_eq_none_iff.mp hc
      simp [hnil, Text.lines] at hrest
    | some c => rw [hhead, hc, htail c hc]
  · exact readAll_hunk_unfit hno ps hps _

/-- The name of a file that the header lines of a diff can hold: it has no tab and no newline, and
does not end in a carriage return. -/
def PlainName (name : List Char) : Prop :=
  '\t' ∉ name ∧ '\n' ∉ name ∧ name.getLast? ≠ some '\r'

instance (name : List Char) : Decidable (PlainName name) :=
  inferInstanceAs (Decidable ('\t' ∉ name ∧ '\n' ∉ name ∧ name.getLast? ≠ some '\r'))

/-- A text without a character is taken up to its end. -/
theorem takeWhile_ne_of_not_mem {c : Char} {cs : List Char} (h : c ∉ cs) :
    cs.takeWhile (· != c) = cs := by
  induction cs with
  | nil => rfl
  | cons d ds ih =>
    simp only [List.mem_cons, not_or] at h
    rw [List.takeWhile_cons, if_pos (bne_iff_ne.mpr (Ne.symm h.1)), ih h.2]

/-- The reader drops only the newline that was written after a plain name. -/
theorem PlainName.dropEnd {name : List Char} (h : PlainName name) :
    ((name ++ ['\n']).reverse.dropWhile fun c => c == '\n' || c == '\r').reverse = name := by
  obtain ⟨-, hnewline, hreturn⟩ := h
  rw [List.reverse_append, List.reverse_singleton, List.singleton_append, List.dropWhile_cons]
  simp only [beq_self_eq_true, Bool.true_or, if_true]
  cases hrev : name.reverse with
  | nil =>
    obtain rfl : name = [] := by simpa using hrev
    rfl
  | cons c cs =>
    have hlast : name.getLast? = some c := by rw [List.getLast?_eq_head?_reverse, hrev]; rfl
    have hc : c ≠ '\r' := by rintro rfl; exact hreturn hlast
    have hc' : c ≠ '\n' := by
      rintro rfl
      exact hnewline (List.mem_of_getLast? hlast)
    rw [List.dropWhile_cons]
    simp only [Bool.or_self, beq_eq_false_iff_ne.mpr hc, beq_eq_false_iff_ne.mpr hc',
      Bool.false_eq_true, if_false]
    rw [← hrev, List.reverse_reverse]

/-- The path that a header line was written with is read back, if it is plain. -/
theorem headerPath_append {name : List Char} (h : PlainName name) (lead : List Char) :
    headerPath lead (lead ++ (name ++ ['\n'])) = .ok name := by
  have hafter : Text.after? lead (lead ++ (name ++ ['\n'])) = some (name ++ ['\n']) := by
    induction lead with
    | nil => rfl
    | cons c cs ih => simpa [Text.after?_cons] using ih
  simp only [headerPath, hafter, h.dropEnd, takeWhile_ne_of_not_mem h.1]

/-- The old and the new name of a file are the same, so none of them loses a directory. -/
theorem patchPath_self (name : List Char) : patchPath name name = name := by
  unfold patchPath
  split
  · next stripped hold hnew =>
    cases name with
    | nil => cases hold
    | cons c cs =>
      simp only [Text.after?_cons] at hold hnew
      split at hold
      · next hc =>
        split at hnew
        · next hc' =>
          obtain rfl := beq_iff_eq.mp hc
          exact absurd (beq_iff_eq.mp hc') (by decide)
        · cases hnew
      · cases hold
  · rfl

/-- The two header lines of a file. -/
def names (name : List Char) : List Char :=
  "--- ".toList ++ name ++ "\n+++ ".toList ++ name ++ ['\n']

theorem head?_names (name : List Char) : (names name).head? = some '-' := by
  unfold names
  simp

/-- The header lines of a file start a patch for it. -/
theorem readAll_names {name : List Char} (h : PlainName name) (ps : List FilePatch)
    (rest : List Char) :
    readAll ⟨ps, .outside⟩ (names name ++ rest) =
      readAll ⟨ps ++ [⟨String.ofList name, []⟩], .outside⟩ rest := by
  have hchars : names name ++ rest =
      (['-', '-', '-', ' '] ++ name) ++ '\n' ::
        ((['+', '+', '+', ' '] ++ name) ++ '\n' :: rest) := by
    unfold names
    simp
  have hunbroken : ∀ lead : List Char, '\n' ∉ lead → '\n' ∉ lead ++ name := by
    intro lead hlead
    simp [hlead, h.2.1]
  have hold : readLine ⟨ps, .outside⟩ (['-', '-', '-', ' '] ++ name ++ ['\n']) =
      .ok ⟨ps, .oldNamed name⟩ := by
    have hpath := headerPath_append h ['-', '-', '-', ' ']
    have hlead : ['-', '-', '-', ' '].isPrefixOf (['-', '-', '-', ' '] ++ (name ++ ['\n'])) =
        true := by simp [List.isPrefixOf]
    simp only [readLine, readOutside, List.append_assoc, hlead, if_true, hpath]
    rfl
  have hnew : readLine ⟨ps, .oldNamed name⟩ (['+', '+', '+', ' '] ++ name ++ ['\n']) =
      .ok ⟨ps ++ [⟨String.ofList name, []⟩], .outside⟩ := by
    have hpath := headerPath_append h ['+', '+', '+', ' ']
    simp only [readLine, List.append_assoc, hpath]
    change Except.ok (⟨ps ++ [⟨String.ofList (patchPath name name), []⟩], .outside⟩ : Reading) = _
    rw [patchPath_self]
  rw [readAll, hchars, Text.lines_append_newline (hunbroken _ (by decide)),
    Text.lines_append_newline (hunbroken _ (by decide)), readLines_cons_ok hold,
    readLines_cons_ok hnew]
  rfl

end Diff

end Mutagenesis

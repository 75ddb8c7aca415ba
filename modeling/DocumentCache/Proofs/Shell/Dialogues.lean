import DocumentCache.Proofs.Shell.Orders

/-!
# Dialogues

Input is read line by line, and each line is answered, up to the one that leaves; a line
that is no text ends a session as the end of the input does.  What a session prints are
the answers behind their prompts, and exactly the lines with the name of the command to
leave end it.  An answer tells whether a line was accepted: no error and no hint reads as
a confirmation.
-/

namespace DocumentCache.Shell

/-! ## Lines -/

/-- The bytes of each line of some input, its end of line included. -/
def byteLines : Bytes → List Bytes
  | [] => []
  | byte :: rest =>
      if byte = 0x0A then [byte] :: byteLines rest
      else
        match byteLines rest with
        | [] => [[byte]]
        | line :: lines => (byte :: line) :: lines

/-- The texts of lines, up to the first that is none. -/
def textsOf : List Bytes → List String
  | [] => []
  | bytes :: rest =>
      match Utf8.decode? bytes with
      | none => []
      | some line => line :: textsOf rest

/-- The lines of some input, up to the first that is no text. -/
def textLines (input : Bytes) : List String := textsOf (byteLines input)

theorem byteLines_cons (byte : UInt8) (rest : Bytes) :
    byteLines (byte :: rest) =
      (splitLine (byte :: rest)).1 :: byteLines (splitLine (byte :: rest)).2 := by
  induction rest generalizing byte with
  | nil =>
      simp only [byteLines, splitLine]
      split <;> rfl
  | cons next rest ih =>
      rw [byteLines, splitLine]
      by_cases hend : byte = 0x0A
      · simp only [if_pos hend]
      · simp only [if_neg hend, ih next]

theorem textLines_cons (byte : UInt8) (rest : Bytes) :
    textLines (byte :: rest) =
      match Utf8.decode? (splitLine (byte :: rest)).1 with
      | none => []
      | some line => line :: textLines (splitLine (byte :: rest)).2 := by
  rw [textLines, byteLines_cons, textsOf]
  rfl

/-- Bytes up to the only end of line are one line. -/
theorem byteLines_of_line {front : Bytes} (h : 0x0A ∉ front) :
    byteLines (front ++ [0x0A]) = [front ++ [0x0A]] := by
  induction front with
  | nil => rfl
  | cons byte rest ih =>
      rw [List.mem_cons, not_or] at h
      rw [List.cons_append, byteLines, if_neg (Ne.symm h.1), ih h.2]

/-- A text with its only end of line at its end is one line. -/
theorem textLines_of_line {text : String} (h : 0x0A ∉ Utf8.encode text) :
    textLines (Utf8.encode (text ++ "\n")) = [text ++ "\n"] := by
  have hend : Utf8.encode "\n" = [0x0A] := rfl
  have hline : Utf8.encode (text ++ "\n") = Utf8.encode text ++ [0x0A] := by
    rw [Utf8.encode_append, hend]
  rw [textLines, hline, byteLines_of_line h, ← hline, textsOf, Utf8.decode?_encode]
  rfl

/-- The lines that are heard: the session is over behind the one that leaves. -/
def heard : List String → List String
  | [] => []
  | line :: rest => if leaves line then [line] else line :: heard rest

/-! ## Answers -/

/-- A line and the answer to it. -/
structure Exchange where
  line : String
  text : String

/-- What a command that changes documents says when it has. -/
def confirmations : List String := ["  OK\n", "  OK (tombstone)\n", "  OK (removed)\n"]

/-- The line has the name of a command that changes documents, and was answered with OK. -/
def Exchange.Accepted (exchange : Exchange) : Prop :=
  (∃ name words, Text.words exchange.line = name :: words ∧ Text.toLowerCase name ∈ changing) ∧
    exchange.text ∈ confirmations

/-- Answer lines until one leaves. -/
def dialogue (uptime : String) (cache : FileCache) : List String → List Exchange × FileCache
  | [] => ([], cache)
  | line :: rest =>
      let answered := reply uptime cache line
      if answered.ended then ([⟨line, answered.text⟩], answered.cache)
      else
        let (later, last) := dialogue uptime answered.cache rest
        (⟨line, answered.text⟩ :: later, last)

/-- What is printed in a session: each answer behind a prompt, and a last prompt unless the
last line left. -/
def transcript : List Exchange → String
  | [] => prompt
  | exchange :: rest =>
      prompt ++ exchange.text ++ if leaves exchange.line then "" else transcript rest

/-- The third letter tells a confirmation from an error and a hint. -/
theorem append_notMem_confirmations {front : String} (hlong : 2 < front.toList.length)
    (hthird : front.toList[2]? ≠ some 'O') (rest : String) : front ++ rest ∉ confirmations := by
  intro h
  apply hthird
  rw [← List.getElem?_append_left hlong, ← String.toList_append]
  simp only [confirmations, List.mem_cons, List.not_mem_nil, or_false] at h
  rcases h with h | h | h <;> rw [h] <;> rfl

theorem showError_notMem_confirmations (error : Error) : showError error ∉ confirmations := by
  have htext : showError error = "  ERROR: " ++ (error.message ++ "\n") := String.append_assoc
  rw [htext]
  exact append_notMem_confirmations (by decide) (by decide) _

theorem usage_notMem_confirmations (uptime : String) (cache : FileCache) (text : String) :
    (run uptime cache (.usage text)).1 ∉ confirmations := by
  have htext : (run uptime cache (.usage text)).1 = "  Usage: " ++ (text ++ "\n") :=
    String.append_assoc
  rw [htext]
  exact append_notMem_confirmations (by decide) (by decide) _

/-- The answer to a line that holds a command: the session is over if that is to leave. -/
theorem reply_of_command {uptime : String} {cache : FileCache} {line : String} {command : Command}
    (h : parseLine line = some (.ok command)) :
    reply uptime cache line =
      ⟨(run uptime cache command).1, (run uptime cache command).2, leaves line⟩ := by
  have hleaves : leaves line = true ↔ command = .leave := by
    rw [← parseLine_eq_leave_iff, h]
    simp
  rw [reply, h]
  cases command with
  | leave => simp only [hleaves.mpr rfl]
  | _ =>
    have hstays : leaves line = false := by
      rw [← Bool.not_eq_true, hleaves]
      exact fun hleave => nomatch hleave
    simp only [hstays]

/-- Exactly the lines that leave end a session. -/
theorem ended_reply (uptime : String) (cache : FileCache) (line : String) :
    (reply uptime cache line).ended = leaves line := by
  have hstays : parseLine line ≠ some (.ok .leave) → leaves line = false := fun hread =>
    Bool.not_eq_true _ ▸ mt parseLine_eq_leave_iff.mpr hread
  cases hread : parseLine line with
  | none => rw [hstays (by simp [hread]), reply, hread]
  | some read =>
      cases read with
      | error error => rw [hstays (by simp [hread]), reply, hread]
      | ok command => rw [reply_of_command hread]

theorem lines_dialogue (uptime : String) (cache : FileCache) (lines : List String) :
    (dialogue uptime cache lines).1.map Exchange.line = heard lines := by
  induction lines generalizing cache with
  | nil => rfl
  | cons line rest ih =>
      rw [dialogue, heard]
      by_cases hleaves : leaves line = true
      · simp only [ended_reply, hleaves, if_true, List.map_cons, List.map_nil]
      · simp only [ended_reply, hleaves, Bool.false_eq_true, if_false, List.map_cons, ih]

theorem dialogue_singleton (uptime : String) (cache : FileCache) (line : String) :
    dialogue uptime cache [line] =
      ([⟨line, (reply uptime cache line).text⟩], (reply uptime cache line).cache) := by
  rw [dialogue]
  split <;> rfl

/-- A session prints what is said in it. -/
theorem converse_eq (uptime : String) (cache : FileCache) (input : Bytes) :
    converse uptime cache input =
      (transcript (dialogue uptime cache (textLines input)).1,
        (dialogue uptime cache (textLines input)).2) := by
  -- The induction takes one line after another, as the session does.
  induction cache, input using converse.induct uptime with
  | case1 cache =>
      rw [converse]
      rfl
  | case2 cache byte rest hnone =>
      rw [converse, textLines_cons, hnone]
      rfl
  | case3 cache byte rest line hline answered hended =>
      have hleaves : leaves line = true := (ended_reply uptime cache line).symm.trans hended
      rw [converse, textLines_cons, hline]
      simp only [dialogue, ended_reply, hleaves, if_true, transcript, String.append_empty]
  | case4 cache byte rest line hline answered hended text last hconverse ih =>
      have hstays : ¬ leaves line = true := ended_reply uptime cache line ▸ hended
      have hbehind : converse uptime (reply uptime cache line).cache
          (splitLine (byte :: rest)).2 = _ := ih
      rw [converse, textLines_cons, hline]
      simp only [dialogue, ended_reply, hstays, Bool.false_eq_true, if_false, transcript, hbehind]
      rfl

end DocumentCache.Shell

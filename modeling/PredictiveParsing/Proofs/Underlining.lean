import PredictiveParsing.Parsing.Report
import PredictiveParsing.Proofs.Source.Places

/-!
# What a report shows

A report quotes a line of its source by number, and underlines a part of it by column and offset. An
error whose span runs from one place of the source to another is reported without fault, and what
is quoted is the line around the first place (`Text.getD_lines`): so line, column and offset of a
position agree about where the error is: `ParseError.report_underlines`.
-/

namespace PredictiveParsing

namespace Text

variable {text begun passed rest line : Text}

/-- A line without the carriage return that belongs to its end. -/
def withoutReturn (line : Text) : Text :=
  if line.getLast? = some '\r' then line.dropLast else line

/-- The line of a text around a place: what stands between the last newline in front of the place
and the first newline behind it. If there is such a newline behind, a carriage return directly in
front of it is left out. -/
def lineAround (passed rest : Text) : Text :=
  let line := passed.lastLine ++ rest.takeWhile (· ≠ '\n')
  if '\n' ∈ rest then withoutReturn line else line

theorem closeLine_reverse (line : Text) : closeLine line.reverse = withoutReturn line := by
  induction line using List.reverseRecOn with
  | nil => rfl
  | append_singleton line c =>
    rw [List.reverse_append, List.reverse_singleton, List.singleton_append, withoutReturn,
      List.getLast?_concat, List.dropLast_concat]
    by_cases hc : c = '\r'
    · rw [hc, if_pos rfl]
      exact List.reverse_reverse line
    · rw [if_neg (fun h => hc (Option.some.inj h))]
      unfold closeLine
      split
      · next h => exact absurd (List.cons.inj h).1 hc
      · simp

/-- The first of the lines that are left is the one around the place. -/
theorem getD_linesFrom_zero (hbegun : '\n' ∉ begun) :
    (linesFrom begun.reverse rest).getD 0 [] = lineAround begun rest := by
  induction rest generalizing begun with
  | nil =>
    rw [linesFrom, lineAround, lastLine_of_not_mem hbegun]
    by_cases hnil : begun = []
    · simp [hnil]
    · simp [hnil]
  | cons c rest ih =>
    rw [linesFrom]
    by_cases hc : c = '\n'
    · simp [hc, lineAround, lastLine_of_not_mem hbegun, closeLine_reverse]
    · rw [if_neg hc, show c :: begun.reverse = (begun ++ [c]).reverse by simp, ih (by grind)]
      simp [lineAround, lastLine_append_singleton hc, hc, Ne.symm hc]

/-- Of the lines of a text, the one with as many newlines in front as a place is the line around
that place. -/
theorem getD_linesFrom (hbegun : '\n' ∉ begun) :
    (linesFrom begun.reverse (passed ++ rest)).getD (passed.count '\n') [] =
      lineAround (begun ++ passed) rest := by
  induction passed generalizing begun with
  | nil => simpa using getD_linesFrom_zero hbegun
  | cons c passed ih =>
    rw [List.cons_append, linesFrom]
    by_cases hc : c = '\n'
    · rw [if_pos hc, hc, List.count_cons_self, List.getD_cons_succ, lineAround,
        lastLine_append_cons_newline]
      exact @ih [] List.not_mem_nil
    · rw [if_neg hc, show c :: begun.reverse = (begun ++ [c]).reverse by simp,
        List.count_cons_of_ne hc, ih (by grind), List.append_assoc]
      rfl

theorem getD_lines (passed rest : Text) :
    (lines (passed ++ rest)).getD (passed.count '\n') [] = lineAround passed rest :=
  @getD_linesFrom [] passed rest List.not_mem_nil

end Text

namespace ParseError

variable {e : ParseError} {source first last : Text}

/-- A report put together from its parts: the message, the position it begins at, the line it
quotes, what stands below that line in front of the carets, and the number of carets. -/
def layOut (message : String) (start : Position) (line indent : Text) (carets : Nat) : String :=
  let label := toString start.line
  let gutter := "".pushn ' ' label.length
  "error: " ++ message ++ "\n" ++
    gutter ++ "--> " ++ toString start ++ "\n" ++
    gutter ++ " |\n" ++
    label ++ " | " ++ String.ofList line ++ "\n" ++
    gutter ++ " | " ++ String.ofList indent ++ "".pushn '^' carets

theorem report_eq_layOut (hline : 1 ≤ e.span.start.line) (hcolumn : 1 ≤ e.span.start.column) :
    e.report source = .ok (layOut e.message e.span.start
      (source.lines.getD (e.span.start.line - 1) [])
      (indentBelow (source.lines.getD (e.span.start.line - 1) []) (e.span.start.column - 1))
      (underlined e.span source (source.lines.getD (e.span.start.line - 1) [])
        (e.span.start.column - 1))) := by
  unfold report
  dsimp only
  rw [checkedSub_eq_ok.2 ⟨hline, rfl⟩, checkedSub_eq_ok.2 ⟨hcolumn, rfl⟩]
  rfl

/-- Below the part of a line in front of a column there is a tab below each tab, and a space below
every other scalar. -/
theorem getElem?_indentBelow {quoted : Text} {columns i : Nat} {c : Char}
    (hi : i < (indentBelow quoted columns).length) (hc : quoted[i]? = some c) :
    (indentBelow quoted columns)[i]? = some (if c = '\t' then '\t' else ' ') := by
  have hcolumn : i < columns := by
    simp only [indentBelow, List.length_map, List.length_take] at hi
    omega
  simp [indentBelow, hcolumn, hc]

/-- The report of an error that runs over the text `between`, with `before` in front and `rest`
behind. -/
structure Reported (e : ParseError) (before between rest : Text) (quoted indent : Text)
    (carets : Nat) : Prop where
  report_eq : e.report (before ++ between ++ rest) =
    .ok (layOut e.message e.span.start quoted indent carets)
  quoted_eq : quoted = Text.lineAround before (between ++ rest)
  /-- The line may end in front of the column, if its end is what the error begins in. -/
  indent_length : indent.length = min (e.span.start.column - 1) quoted.length
  indent_get : ∀ i c, i < indent.length → quoted[i]? = some c →
    indent[i]? = some (if c = '\t' then '\t' else ' ')
  /-- An error that ends on another line is underlined up to the end of the line it begins on. -/
  carets_eq : carets = max 1 (if e.span.stop.line = e.span.start.line then between.length
    else (quoted.drop (e.span.start.column - 1)).length)

/-- An error that runs from one place of a source to another is reported, with the line around the
first place and with a caret for each scalar of the error on this line, and at least one. -/
theorem report_underlines (hfirst : first <+: source) (hlast : last <+: source)
    (hstart : Position.start.advance first = .ok e.span.start)
    (hstop : Position.start.advance last = .ok e.span.stop)
    (hle : e.span.start.offset ≤ e.span.stop.offset) :
    ∃ between rest quoted indent carets, last = first ++ between ∧ source = last ++ rest ∧
      e.Reported first between rest quoted indent carets := by
  have hfrom := (Position.advance_eq_after hstart).trans (Position.start_after first)
  have hto := (Position.advance_eq_after hstop).trans (Position.start_after last)
  obtain ⟨between, rfl⟩ : first <+: last := by
    refine Text.prefix_of_byteLength_le hfirst hlast ?_
    rwa [hfrom, hto] at hle
  obtain ⟨rest, rfl⟩ := hlast
  have hquoted : (Text.lines (first ++ between ++ rest)).getD (e.span.start.line - 1) [] =
      Text.lineAround first (between ++ rest) := by
    rw [hfrom, List.append_assoc, Nat.add_sub_cancel_left, Text.getD_lines]
  have hline : 1 ≤ e.span.start.line := by rw [hfrom]; exact Nat.le_add_right 1 _
  have hcolumn : 1 ≤ e.span.start.column := by rw [hfrom]; exact Nat.le_add_right 1 _
  have hreport := @report_eq_layOut e (first ++ between ++ rest) hline hcolumn
  rw [hquoted] at hreport
  refine ⟨between, rest, _, _, _, rfl, rfl, hreport, rfl, ?_, fun i c => getElem?_indentBelow, ?_⟩
  · rw [indentBelow, List.length_map, List.length_take]
  · unfold underlined
    split
    · rw [hfrom, hto, Text.slice?_append]
      exact Nat.max_comm ..
    · rw [List.length_drop]
      exact Nat.max_comm ..

/-- An error that begins behind a tab and ends two lines below, in a source with carriage
returns. -/
def crossing : ParseError := ⟨"not closed", ⟨2, 2, 4⟩, ⟨4, 1, 9⟩⟩

theorem crossing_report_underlines :
    ['a', '\r', '\n', '\t'] <+: ['a', '\r', '\n', '\t', 'λ', '\r', '\n', '\n', 'b'] ∧
    ['a', '\r', '\n', '\t', 'λ', '\r', '\n', '\n'] <+:
      ['a', '\r', '\n', '\t', 'λ', '\r', '\n', '\n', 'b'] ∧
    Position.start.advance ['a', '\r', '\n', '\t'] = .ok crossing.span.start ∧
    Position.start.advance ['a', '\r', '\n', '\t', 'λ', '\r', '\n', '\n'] =
      .ok crossing.span.stop ∧
    crossing.span.start.offset ≤ crossing.span.stop.offset ∧
    ∃ between rest quoted indent carets,
      ['a', '\r', '\n', '\t', 'λ', '\r', '\n', '\n'] = ['a', '\r', '\n', '\t'] ++ between ∧
      ['a', '\r', '\n', '\t', 'λ', '\r', '\n', '\n', 'b'] =
        ['a', '\r', '\n', '\t', 'λ', '\r', '\n', '\n'] ++ rest ∧
      crossing.Reported ['a', '\r', '\n', '\t'] between rest quoted indent carets := by
  have hfirst : ['a', '\r', '\n', '\t'] <+:
      ['a', '\r', '\n', '\t', 'λ', '\r', '\n', '\n', 'b'] := by
    decide
  have hlast : ['a', '\r', '\n', '\t', 'λ', '\r', '\n', '\n'] <+:
      ['a', '\r', '\n', '\t', 'λ', '\r', '\n', '\n', 'b'] := by
    decide
  have hle : crossing.span.start.offset ≤ crossing.span.stop.offset := by decide
  exact ⟨hfirst, hlast, rfl, rfl, hle, report_underlines hfirst hlast rfl rfl hle⟩

/-- The carriage return in front of the newline is neither quoted nor underlined. -/
example : ((⟨"not closed", ⟨2, 2, 4⟩, ⟨4, 1, 9⟩⟩ : ParseError).report
      ['a', '\r', '\n', '\t', 'λ', '\r', '\n', '\n', 'b']).toOption =
    some "error: not closed\n --> 2:2\n  |\n2 | \tλ\n  | \t^" := by
  decide +kernel

end ParseError

end PredictiveParsing

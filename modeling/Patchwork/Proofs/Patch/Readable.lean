import Patchwork.Patch.Parse
import Patchwork.Proofs.Outcome
import Patchwork.Proofs.Text.Lines

/-! The lines of a hunk as they are written and read.  Behind a line without its newline
no line of the same side may follow, so lines can be read only in some orders
(`Readable`).  Lines in such an order are read as they were written (`body_written`),
and whatever is read comes in such an order (`readable_of_body`). -/

namespace Patchwork

namespace PatchLine

/-- The same role with another text. -/
def withText (l : PatchLine) (text : String) : PatchLine :=
  match l with
  | context _ => context text
  | delete _ => delete text
  | insert _ => insert text

theorem text_withText (l : PatchLine) (text : String) : (l.withText text).text = text := by
  cases l <;> rfl

theorem withText_text (l : PatchLine) : l.withText l.text = l := by
  cases l <;> rfl

/-- The lines of text that a hunk's line is written as. -/
def written (l : PatchLine) : List (List Char) :=
  if Text.endsLine l.text then [l.mark :: l.text.toList]
  else [l.mark :: (l.text.toList ++ ['\n']), endMarker.toList ++ ['\n']]

theorem toList_render (l : PatchLine) : l.render.toList = l.written.flatten := by
  unfold render written
  split <;> simp

end PatchLine

namespace PatchReading

/-! ## Which lines may follow -/

namespace Ended

/-- Whether a line may follow where some sides have ended. -/
def allows (e : Ended) : PatchLine → Bool
  | .context _ => !e.context
  | .delete _ => !e.context && !e.delete
  | .insert _ => !e.context && !e.insert

/-- The sides that have ended behind a line. -/
def after (e : Ended) (l : PatchLine) : Ended :=
  if Text.endsLine l.text then e
  else
    match l with
    | .context _ => { e with context := true }
    | .delete _ => { e with delete := true }
    | .insert _ => { e with insert := true }

theorem after_of_endsLine {l : PatchLine} (e : Ended) (h : Text.endsLine l.text) :
    e.after l = e :=
  if_pos h

theorem allows_withText (e : Ended) (l : PatchLine) (text : String) :
    e.allows (l.withText text) = e.allows l := by
  cases l <;> rfl

theorem context_of_allows {e : Ended} {l : PatchLine} (h : e.allows l) : e.context = false := by
  cases l <;> simp_all [allows]

end Ended

/-- **Lines that can be read.**  A newline stands only at the end of a line, and no line
follows that a line without a newline has shut out. -/
def Readable : Ended → List PatchLine → Prop
  | _, [] => True
  | e, l :: rest => Text.IsLine l.text.toList ∧ e.allows l ∧ Readable (e.after l) rest

theorem Readable.isLine {e : Ended} {ls : List PatchLine} (h : Readable e ls) {l : PatchLine}
    (hl : l ∈ ls) : Text.IsLine l.text.toList := by
  induction ls generalizing e with
  | nil => cases hl
  | cons m ls ih =>
    obtain ⟨line, -, rest⟩ := h
    rcases List.mem_cons.mp hl with rfl | hl
    · exact line
    · exact ih rest hl

/-! ## Reading what was written -/

theorem takeLine_mark {e : Ended} {l : PatchLine} (allowed : e.allows l) (done : List PatchLine)
    (text : List Char) :
    takeLine e done (l.mark :: text) = .ok (e, l.withText (String.ofList text) :: done) := by
  cases l <;> simp_all [takeLine, PatchLine.mark, PatchLine.withText, Ended.allows]

/-- The marker acts on the line in front of it. -/
theorem takeLine_endMarker {e : Ended} (context : e.context = false) (last : PatchLine)
    (done : List PatchLine) :
    takeLine e (last :: done) (endMarker.toList ++ ['\n']) =
      (endLine e last).map fun (ended, line) => (ended, line :: done) := by
  have marked : endMarker.toList ++ ['\n'] = '\\' :: " No newline at end of file\n".toList := by
    decide
  have marker : (Text.dropStart? endMarker.toList (endMarker.toList ++ ['\n'])).isSome := by
    rw [Text.dropStart?_eq_some_iff.mpr rfl]
    rfl
  rw [marked] at marker ⊢
  simp only [takeLine, context, marker]
  rfl

/-- The marker takes off the newline that stands only for the missing one. -/
theorem endLine_newline (e : Ended) {l : PatchLine} (unended : Text.endsLine l.text = false) :
    endLine e (l.withText (l.text ++ "\n")) = .ok (e.after l, l) := by
  have rest : Text.before? "\n" (l.text ++ "\n") = some l.text := Text.before?_eq_some_iff.mpr rfl
  have dropped : withoutNewline (l.text ++ "\n") = .ok l.text := by rw [withoutNewline, rest]
  rw [Ended.after.eq_def, if_neg (Bool.eq_false_iff.mp unended)]
  cases l <;>
  · simp only [PatchLine.text, PatchLine.withText, endLine] at dropped ⊢
    rw [dropped]
    rfl

/-- Reading goes on behind a line as it was written. -/
theorem body_written_append {e : Ended} {l : PatchLine} (allowed : e.allows l)
    (done : List PatchLine) (rest : List (List Char)) :
    body e done (l.written ++ rest) = body (e.after l) (l :: done) rest := by
  unfold PatchLine.written
  split
  · rename_i ended
    rw [List.singleton_append, body, takeLine_mark allowed, String.ofList_toList, l.withText_text,
      e.after_of_endsLine ended]
    rfl
  · rename_i unended
    have text : String.ofList (l.text.toList ++ ['\n']) = l.text ++ "\n" := by
      rw [String.ofList_append, String.ofList_toList]
    rw [List.cons_append, body, takeLine_mark allowed, text]
    change body e (l.withText (l.text ++ "\n") :: done) (_ :: rest) = _
    rw [body, takeLine_endMarker (Ended.context_of_allows allowed),
      endLine_newline e (Bool.eq_false_iff.mpr unended)]
    rfl

/-- **Readable lines are read as they were written.** -/
theorem body_written {e : Ended} {ls : List PatchLine} (h : Readable e ls) (done : List PatchLine) :
    body e done (ls.flatMap PatchLine.written) = .ok (done.reverse ++ ls) := by
  induction ls generalizing e done with
  | nil => simp [body]
  | cons l ls ih =>
    obtain ⟨-, allowed, rest⟩ := h
    rw [List.flatMap_cons, body_written_append allowed, ih rest, List.reverse_cons,
      List.append_assoc, List.singleton_append]

/-! ## What was read can be read -/

theorem readable_append {e : Ended} {xs ys : List PatchLine} :
    Readable e (xs ++ ys) ↔ Readable e xs ∧ Readable (xs.foldl Ended.after e) ys := by
  induction xs generalizing e with
  | nil => simp [Readable]
  | cons x xs ih => simp only [List.cons_append, Readable, ih, List.foldl_cons, and_assoc]

/-- What taking a line does: the line becomes one of the hunk's, or it is a marker and
takes the newline off the one in front of it. -/
theorem takeLine_cases {e e' : Ended} {done done' : List PatchLine} {line : List Char}
    (h : takeLine e done line = .ok (e', done')) :
    (∃ l : PatchLine, e.allows l ∧ (line = l.mark :: l.text.toList ∨ line = l.text.toList) ∧
      e' = e ∧ done' = l :: done) ∨
    (∃ last before l, e.context = false ∧ done = last :: before ∧ endLine e last = .ok (e', l) ∧
      done' = l :: before) := by
  revert h
  fun_cases takeLine e done line with
  | case1 | case4 | case6 =>
    intro h
    cases h
  | case2 _ context text =>
    rintro ⟨⟩
    exact .inl ⟨.context (String.ofList text), by simpa [Ended.allows] using context,
      .inl (by rw [PatchLine.text, String.toList_ofList, PatchLine.mark]), rfl, rfl⟩
  | case3 _ context tail =>
    rintro ⟨⟩
    exact .inl ⟨.context (String.ofList ('\n' :: tail)), by simpa [Ended.allows] using context,
      .inr (by rw [PatchLine.text, String.toList_ofList]), rfl, rfl⟩
  | case5 _ context text delete =>
    rintro ⟨⟩
    exact .inl ⟨.delete (String.ofList text), by simp [Ended.allows, context, delete],
      .inl (by rw [PatchLine.text, String.toList_ofList, PatchLine.mark]), rfl, rfl⟩
  | case7 _ context text insert =>
    rintro ⟨⟩
    exact .inl ⟨.insert (String.ofList text), by simp [Ended.allows, context, insert],
      .inl (by rw [PatchLine.text, String.toList_ofList, PatchLine.mark]), rfl, rfl⟩
  -- a marker needs a line in front of it
  | case8 _ context marker =>
    rw [if_pos marker]
    intro h
    cases h
  | case9 _ context marker last before =>
    rw [if_pos marker]
    intro h
    obtain ⟨⟨ended, l⟩, hl, result⟩ := bind_eq_ok_iff.mp h
    cases result
    exact .inr ⟨last, before, l, Bool.eq_false_iff.mpr context, rfl, hl, rfl⟩
  | case10 _ _ context marker =>
    rw [if_neg marker]
    intro h
    cases h

theorem withoutNewline_eq_ok {s t : String} (line : Text.IsLine s.toList)
    (h : withoutNewline s = .ok t) : s = t ++ "\n" ∧ Text.endsLine t = false := by
  unfold withoutNewline at h
  split at h
  · rename_i dropped
    cases h
    have whole := Text.before?_eq_some_iff.mp dropped
    refine ⟨whole, Bool.eq_false_iff.mpr fun ended => ?_⟩
    rw [whole, String.toList_append, Text.IsLine] at line
    exact line (List.dropLast_concat ▸ List.mem_of_getLast? (Text.endsLine_iff.mp ended))
  · cases h

/-- A newline is taken off only where it stands for a missing one. -/
theorem endLine_cases {e e' : Ended} {last l : PatchLine} (line : Text.IsLine last.text.toList)
    (h : endLine e last = .ok (e', l)) :
    last = l.withText (l.text ++ "\n") ∧ Text.endsLine l.text = false ∧ e' = e.after l := by
  cases last <;>
  · obtain ⟨text, h, result⟩ := bind_eq_ok_iff.mp h
    obtain ⟨rfl, unended⟩ := withoutNewline_eq_ok line h
    cases result
    exact ⟨rfl, unended, (if_neg (Bool.eq_false_iff.mp unended)).symm⟩

/-- The lines read so far, latest first, can be read, and the flags say which sides have
ended behind them. -/
structure Read (e : Ended) (done : List PatchLine) : Prop where
  readable : Readable {} done.reverse
  ended : done.reverse.foldl Ended.after {} = e

theorem Read.nil : Read {} [] := ⟨trivial, rfl⟩

theorem Read.push {e : Ended} {done : List PatchLine} {l : PatchLine} (read : Read e done)
    (line : Text.IsLine l.text.toList) (allowed : e.allows l) : Read (e.after l) (l :: done) := by
  constructor
  · rw [List.reverse_cons, readable_append, read.ended]
    exact ⟨read.readable, line, allowed, trivial⟩
  · rw [List.reverse_cons, List.foldl_append, read.ended]
    rfl

/-- The line read last follows what was read before it. -/
theorem Read.pop {e : Ended} {done : List PatchLine} {l : PatchLine} (read : Read e (l :: done)) :
    Text.IsLine l.text.toList ∧ (Text.endsLine l.text → Read e done ∧ e.allows l) := by
  obtain ⟨readable, flags⟩ := read
  rw [List.reverse_cons, readable_append] at readable
  rw [List.reverse_cons, List.foldl_append, List.foldl_cons, List.foldl_nil] at flags
  obtain ⟨before, line, allowed, -⟩ := readable
  refine ⟨line, fun ended => ?_⟩
  rw [Ended.after_of_endsLine _ ended] at flags
  exact ⟨⟨before, flags⟩, flags ▸ allowed⟩

/-- The text of a line stands at its end. -/
theorem isLine_text {l : PatchLine} {line : List Char} (isLine : Text.IsLine line)
    (h : line = l.mark :: l.text.toList ∨ line = l.text.toList) :
    Text.IsLine l.text.toList ∧ (Text.Ended line → Text.endsLine l.text) := by
  rcases h with rfl | rfl
  · rw [Text.endsLine_iff]
    cases text : l.text.toList with
    | nil =>
      have mark : l.mark ≠ '\n' := by cases l <;> exact of_decide_eq_true rfl
      exact ⟨List.not_mem_nil, fun ended => absurd (Option.some_inj.mp ended) mark⟩
    | cons c cs =>
      rw [text, Text.IsLine, List.dropLast_cons_cons] at isLine
      refine ⟨(List.ne_and_not_mem_of_not_mem_cons isLine).2, fun ended => ?_⟩
      rwa [Text.Ended, List.getLast?_cons_cons] at ended
  · exact ⟨isLine, Text.endsLine_iff.mpr⟩

/-- Taking a line keeps what is read readable, and the flags say which sides have ended
unless the text ends within the line. -/
theorem Read.takeLine {e e' : Ended} {done done' : List PatchLine} {line : List Char}
    (read : Read e done) (isLine : Text.IsLine line)
    (h : PatchReading.takeLine e done line = .ok (e', done')) :
    Readable {} done'.reverse ∧ (Text.Ended line → Read e' done') := by
  rcases takeLine_cases h with ⟨l, allowed, shown, rfl, rfl⟩ | ⟨last, before, l, -, rfl, hl, rfl⟩
  · obtain ⟨text, ends⟩ := isLine_text isLine shown
    have pushed := read.push text allowed
    exact ⟨pushed.readable, fun ended => e'.after_of_endsLine (ends ended) ▸ pushed⟩
  · -- the line in front had its newline so far, so it has shut out nothing before the marker
    obtain ⟨isLine, before⟩ := read.pop
    obtain ⟨rfl, unended, rfl⟩ := endLine_cases isLine hl
    rw [l.text_withText] at isLine before
    obtain ⟨read, allowed⟩ := before (Text.endsLine_append_newline l.text)
    have pushed := read.push (l := l) (Text.isLine_of_append (String.toList_append ▸ isLine))
      (e.allows_withText l _ ▸ allowed)
    exact ⟨pushed.readable, fun _ => pushed⟩

theorem Read.body {lines : List (List Char)} (cut : Text.Cut lines) {e : Ended}
    {done ls : List PatchLine} (read : Read e done)
    (h : PatchReading.body e done lines = .ok ls) : Readable {} ls := by
  induction cut generalizing e done with
  | nil =>
    cases h
    exact read.readable
  | last _ newline =>
    obtain ⟨⟨e', done'⟩, taken, h⟩ := bind_eq_ok_iff.mp h
    cases h
    exact (read.takeLine (Text.isLine_of_notMem newline) taken).1
  | ended newline _ ih =>
    obtain ⟨⟨e', done'⟩, taken, h⟩ := bind_eq_ok_iff.mp h
    exact ih ((read.takeLine (Text.isLine_ended newline) taken).2 List.getLast?_concat) h

/-- **Lines that were read can be read.** -/
theorem readable_of_body {lines : List (List Char)} (cut : Text.Cut lines) {ls : List PatchLine}
    (h : PatchReading.body {} [] lines = .ok ls) : Readable {} ls :=
  Read.body cut Read.nil h

/-! ## Sides that are cut from a text -/

/-- No line of a side follows where the side has ended. -/
structure Ended.Fits (e : Ended) (ls : List PatchLine) : Prop where
  old : e.context || e.delete → ls.filterMap PatchLine.old? = []
  new : e.context || e.insert → ls.filterMap PatchLine.new? = []

theorem Ended.Fits.allows {e : Ended} {l : PatchLine} {ls : List PatchLine}
    (fits : e.Fits (l :: ls)) : e.allows l := by
  obtain ⟨old, new⟩ := fits
  cases l <;> simp_all [Ended.allows, PatchLine.old?, PatchLine.new?]

theorem Ended.Fits.tail {e : Ended} {l : PatchLine} {ls : List PatchLine}
    (fits : e.Fits (l :: ls)) : e.Fits ls := by
  have rest {f : PatchLine → Option String} (h : (l :: ls).filterMap f = []) :
      ls.filterMap f = [] :=
    List.filterMap_eq_nil_iff.mpr fun m hm =>
      List.filterMap_eq_nil_iff.mp h m (List.mem_cons_of_mem l hm)
  exact ⟨fun h => rest (fits.old h), fun h => rest (fits.new h)⟩

/-- A side ends behind its line without a newline, as that is the last line of the side. -/
theorem Ended.Fits.after {e : Ended} {l : PatchLine} {ls : List PatchLine}
    (fits : e.Fits (l :: ls))
    (old : Text.Cut (((l :: ls).filterMap PatchLine.old?).map String.toList))
    (new : Text.Cut (((l :: ls).filterMap PatchLine.new?).map String.toList)) :
    (e.after l).Fits ls := by
  by_cases ended : Text.endsLine l.text
  · rw [e.after_of_endsLine ended]
    exact fits.tail
  · have last {rest : List String}
        (cut : Text.Cut ((l.text :: rest).map String.toList)) : rest = [] :=
      List.map_eq_nil_iff.mp (cut.eq_nil_of_not_ended (mt Text.endsLine_iff.mpr ended))
    obtain ⟨oldRest, newRest⟩ := fits.tail
    rw [Ended.after.eq_def, if_neg ended]
    cases l with
    | context t => exact ⟨fun _ => last old, fun _ => last new⟩
    | delete t => exact ⟨fun _ => last old, newRest⟩
    | insert t => exact ⟨oldRest, fun _ => last new⟩

/-- **Lines can be read when both sides are lines of some text.** -/
theorem readable_of_cut {e : Ended} {ls : List PatchLine} (fits : e.Fits ls)
    (old : Text.Cut ((ls.filterMap PatchLine.old?).map String.toList))
    (new : Text.Cut ((ls.filterMap PatchLine.new?).map String.toList)) : Readable e ls := by
  induction ls generalizing e with
  | nil => trivial
  | cons l ls ih =>
    -- a kept line stands on both sides, so both are cut behind it
    have rest := ih (fits.after old new)
    cases l with
    | context t => exact ⟨old.isLine List.mem_cons_self, fits.allows, rest old.tail new.tail⟩
    | delete t => exact ⟨old.isLine List.mem_cons_self, fits.allows, rest old.tail new⟩
    | insert t => exact ⟨new.isLine List.mem_cons_self, fits.allows, rest old new.tail⟩

end PatchReading
end Patchwork

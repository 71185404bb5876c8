import HrppBoot.Console.Readline

/-!
# Browsing the history

The history is a ring of `HIST_MAX` slots, one of which is free for the next line. `hist_prev` and
`hist_next` walk through it like a reader through pages: the first page is the empty line, and
behind it are the last `HIST_MAX - 1` lines, the newest one first. What the slots held before is
never shown.
-/

namespace HrppBoot.Console

/-! ## Pages -/

/-- `hist_prev` or `hist_next`. -/
inductive Move where
  | prev
  | next
  deriving DecidableEq, Repr

/-- A step through pages from a page on: the page that is turned to, if there is one, and the number
of the page that is open then. -/
def turnPage (pages : List CString) (k : Nat) : Move → Option CString × Nat
  | .prev =>
    match pages[k + 1]? with
    | some line => (some line, k + 1)
    | none => (none, k)
  | .next =>
    match k with
    | 0 => (none, 0)
    | k + 1 => (pages[k]?, k)

def browsePages (pages : List CString) (k : Nat) : List Move → List (Option CString)
  | [] => []
  | move :: moves =>
    (turnPage pages k move).1 :: browsePages pages (turnPage pages k move).2 moves

variable {k : Nat} {pages lines : List CString} {hist : History}

theorem browsePages_prev {n : Nat} (within : k + n < pages.length) (moves : List Move) :
    browsePages pages k (List.replicate n .prev ++ moves) =
      ((pages.drop (k + 1)).take n).map some ++ browsePages pages (k + n) moves := by
  induction n generalizing k with
  | zero => rfl
  | succ n ih =>
    have here : pages[k + 1]? = some pages[k + 1] := List.getElem?_eq_getElem _
    have rest := @ih (k + 1) (by omega)
    rw [List.replicate_succ, List.cons_append, browsePages, turnPage, here, rest,
      List.drop_eq_getElem_cons (by omega : k + 1 < pages.length), Nat.add_right_comm k 1 n]
    rfl

theorem browsePages_last (last : pages.length = k + 1) :
    browsePages pages k [.prev] = [none] := by
  have none : pages[k + 1]? = none := List.getElem?_eq_none (by omega)
  rw [browsePages, turnPage, none]
  rfl

theorem browsePages_next (within : k ≤ pages.length) :
    browsePages pages k (List.replicate k .next) = (pages.take k).reverse.map some := by
  induction k with
  | zero => rfl
  | succ k ih =>
    have here : pages[k]? = some pages[k] := List.getElem?_eq_getElem _
    rw [List.replicate_succ, browsePages, turnPage, here, ih (by omega),
      List.take_succ_eq_append_getElem (by omega : k < pages.length), List.reverse_append]
    rfl

theorem browsePages_mem {moves : List Move} {line : CString}
    (shown : some line ∈ browsePages pages k moves) : line ∈ pages := by
  induction moves generalizing k with
  | nil => exact absurd shown List.not_mem_nil
  | cons move moves ih =>
    rcases List.mem_cons.mp shown with here | later
    · cases move with
      | prev =>
        cases page : pages[k + 1]? with
        | none => simp [turnPage, page] at here
        | some found =>
          obtain rfl : line = found := by simpa [turnPage, page] using here
          exact List.mem_of_getElem? page
      | next =>
        cases k with
        | zero => simp [turnPage] at here
        | succ k => exact List.mem_of_getElem? here.symm
    · exact ih later

/-! ## The ring -/

/-- The history after some lines, with what the slots held before. -/
def filledHistory (before : Nat → CString) (lines : List CString) : History :=
  lines.foldl creadAddToHist { histInit with histList := before }

/-- The indices and the slots after some lines. -/
structure Recorded (lines : List CString) (hist : History) : Prop where
  addIdx : hist.histAddIdx = lines.length % histMaxLines
  max : hist.histMax = min lines.length (histMaxLines - 1)
  slots : ∀ i line, lines[i]? = some line → lines.length ≤ i + histMaxLines →
    hist.histList (i % histMaxLines) = line

theorem Recorded.add (recorded : Recorded lines hist) (line : CString)
    : Recorded (lines ++ [line]) (creadAddToHist hist line) := by
  obtain ⟨addIdx, max, slots⟩ := recorded
  have size : histMaxLines = 20 := rfl
  rw [size] at addIdx max slots
  have next : (creadAddToHist hist line).histAddIdx = (lines.length + 1) % 20 := by
    simp only [creadAddToHist, size, addIdx]
    split <;> omega
  refine ⟨by simpa [size] using next, ?_, ?_⟩
  · have top : (creadAddToHist hist line).histMax =
        if (creadAddToHist hist line).histAddIdx > hist.histMax then
          (creadAddToHist hist line).histAddIdx else hist.histMax := rfl
    rw [top, next, max, size, List.length_append, List.length_singleton]
    split <;> omega
  · intro i other present recent
    rw [size] at recent ⊢
    simp only [creadAddToHist, addIdx, List.length_append, List.length_singleton] at recent ⊢
    rcases Nat.lt_or_ge i lines.length with before | last
    · rw [List.getElem?_append_left before] at present
      rw [if_neg (by omega)]
      exact slots i other present (by omega)
    · obtain rfl : i = lines.length := by
        have within := (List.getElem?_eq_some_iff.mp present).1
        simp only [List.length_append, List.length_singleton] at within
        omega
      rw [if_pos rfl]
      simpa using present

theorem filledHistory_recorded (before : Nat → CString) (lines : List CString) :
    Recorded lines (filledHistory before lines) := by
  induction lines using List.reverseRecOn with
  | nil => exact ⟨rfl, rfl, fun i line present _ => absurd present (by simp)⟩
  | append_singleton lines line ih =>
    rw [filledHistory, List.foldl_append]
    exact ih.add line

/-- The pages of the history: the empty line and the last lines, the newest one first. -/
def historyPages (lines : List CString) : List CString :=
  [] :: lines.reverse.take (histMaxLines - 1)

theorem historyPages_length (lines : List CString) :
    (historyPages lines).length = min lines.length (histMaxLines - 1) + 1 := by
  simp [historyPages, Nat.min_comm]

theorem Recorded.page (recorded : Recorded lines hist)
    (within : k < min lines.length (histMaxLines - 1)) :
    (historyPages lines)[k + 1]? =
      some (hist.histList ((lines.length - 1 - k) % histMaxLines)) := by
  have size : histMaxLines = 20 := rfl
  have short : k < lines.length := by omega
  have slot := recorded.slots (lines.length - 1 - k) _ (List.getElem?_eq_getElem (by omega))
    (by omega)
  rw [slot, historyPages, List.getElem?_cons_succ, List.getElem?_take, if_pos (by omega),
    List.getElem?_reverse short, List.getElem?_eq_getElem (by omega)]

structure Open (lines : List CString) (k : Nat) (hist : History) : Prop extends
    Recorded lines hist where
  within : k ≤ min lines.length (histMaxLines - 1)
  cur : hist.histCur = ((lines.length - k) % histMaxLines : Nat)

/-- `hist_prev` opens the next page, if there is one. -/
theorem Open.prev (opened : Open lines k hist) :
    (histPrev hist).1 = (turnPage (historyPages lines) k .prev).1 ∧
      Open lines (turnPage (historyPages lines) k .prev).2 (histPrev hist).2 := by
  have size : histMaxLines = 20 := rfl
  have within := opened.within
  have cur := opened.cur
  have addIdx := opened.addIdx
  have max := opened.max
  rw [size] at within cur addIdx max
  have notNegative : ¬hist.histCur < 0 := by omega
  rw [histPrev, if_neg notNegative]
  rcases Nat.lt_or_ge k (min lines.length 19) with more | last
  · have page := opened.page more
    have back : (if hist.histCur - 1 < 0 then (hist.histMax : Int) else hist.histCur - 1) =
        ((lines.length - 1 - k) % 20 : Nat) := by
      split <;> omega
    have slot : ((lines.length - 1 - k) % 20 : Nat) = (lines.length - (k + 1)) % 20 := by omega
    simp only [back]
    rw [if_neg (by omega), turnPage, page]
    refine ⟨rfl, ⟨opened.addIdx, opened.max, opened.slots⟩, ?_, ?_⟩
    · rw [size]
      exact more
    · rw [size, ← slot]
  · have none : (historyPages lines)[k + 1]? = none := by
      apply List.getElem?_eq_none
      rw [historyPages_length, size]
      omega
    have back : (if hist.histCur - 1 < 0 then (hist.histMax : Int) else hist.histCur - 1) =
        hist.histAddIdx := by
      split <;> omega
    simp only [back, if_true]
    rw [turnPage, none]
    exact ⟨rfl, opened⟩

/-- `hist_next` opens the page before, if there is one. -/
theorem Open.next {lines : List CString} {k : Nat} {hist : History} (opened : Open lines k hist) :
    (histNext hist).1 = (turnPage (historyPages lines) k .next).1 ∧
      Open lines (turnPage (historyPages lines) k .next).2 (histNext hist).2 := by
  have size : histMaxLines = 20 := rfl
  have within := opened.within
  have cur := opened.cur
  have addIdx := opened.addIdx
  have max := opened.max
  rw [size] at within cur addIdx max
  have notNegative : ¬hist.histCur < 0 := by omega
  rw [histNext, if_neg notNegative]
  cases k with
  | zero =>
    rw [if_pos (by omega), turnPage]
    exact ⟨rfl, opened⟩
  | succ k =>
    have forth : (if hist.histCur + 1 > (hist.histMax : Int) then 0 else hist.histCur + 1) =
        ((lines.length - k) % 20 : Nat) := by
      split <;> omega
    rw [if_neg (by omega)]
    simp only [forth]
    have shut : Open lines k { hist with histCur := ((lines.length - k) % 20 : Nat) } :=
      ⟨⟨opened.addIdx, opened.max, opened.slots⟩, by omega, rfl⟩
    cases k with
    | zero =>
      rw [if_pos (by omega)]
      exact ⟨rfl, shut⟩
    | succ k =>
      rw [if_neg (by omega), turnPage, opened.page (by omega)]
      refine ⟨?_, shut⟩
      rw [size, Int.toNat_natCast, Nat.sub_sub, Nat.add_comm 1 k]

def shownLines (hist : History) : List Move → List (Option CString)
  | [] => []
  | .prev :: moves => (histPrev hist).1 :: shownLines (histPrev hist).2 moves
  | .next :: moves => (histNext hist).1 :: shownLines (histNext hist).2 moves

theorem Open.shownLines (opened : Open lines k hist) (moves : List Move) :
    Console.shownLines hist moves = browsePages (historyPages lines) k moves := by
  induction moves generalizing k hist with
  | nil => rfl
  | cons move moves ih =>
    cases move with
    | prev => rw [Console.shownLines, browsePages, opened.prev.1, ih opened.prev.2]
    | next => rw [Console.shownLines, browsePages, opened.next.1, ih opened.next.2]

/-- The history after some lines, when a new line is begun. -/
def readyHistory (before : Nat → CString) (lines : List CString) : History :=
  { filledHistory before lines with histCur := (filledHistory before lines).histAddIdx }

theorem readyHistory_open (before : Nat → CString) (lines : List CString) :
    Open lines 0 (readyHistory before lines) := by
  have recorded := filledHistory_recorded before lines
  refine ⟨⟨recorded.addIdx, recorded.max, recorded.slots⟩, Nat.zero_le _, ?_⟩
  show ((filledHistory before lines).histAddIdx : Int) = _
  rw [recorded.addIdx, Nat.sub_zero]

/-- Going back through the history shows the last lines, the newest one first, and then nothing;
going forward shows them in the opposite order, and the empty line at the end; and no steps show
anything but these pages, whatever the slots held before. -/
theorem history_browsing (before : Nat → CString) (lines : List CString) :
    (shownLines (readyHistory before lines)
        (List.replicate (min lines.length (histMaxLines - 1)) .prev ++ [.prev]) =
      (lines.reverse.take (histMaxLines - 1)).map some ++ [none]) ∧
    (∀ k ≤ min lines.length (histMaxLines - 1),
      shownLines (readyHistory before lines) (List.replicate k .prev ++ List.replicate k .next) =
        (lines.reverse.take k).map some ++ (([] :: lines.reverse).take k).reverse.map some) ∧
    (∀ moves, shownLines (readyHistory before lines) moves =
      browsePages (historyPages lines) 0 moves) ∧
    ∀ moves line, some line ∈ shownLines (readyHistory before lines) moves →
      line = [] ∨ line ∈ lines.reverse.take (histMaxLines - 1) := by
  have opened := readyHistory_open before lines
  have size : histMaxLines = 20 := rfl
  have pages := historyPages_length lines
  have whole : (historyPages lines).drop 1 = lines.reverse.take (histMaxLines - 1) := rfl
  refine ⟨?_, ?_, opened.shownLines, ?_⟩
  · rw [opened.shownLines, browsePages_prev (by omega), browsePages_last (by omega), whole,
      List.take_of_length_le]
    rw [List.length_take, List.length_reverse]
    omega
  · intro k within
    have front : (historyPages lines).take k = ([] :: lines.reverse).take k := by
      cases k with
      | zero => rfl
      | succ k => rw [historyPages, List.take_succ_cons, List.take_succ_cons, List.take_take,
          Nat.min_eq_left (by omega)]
    rw [opened.shownLines, browsePages_prev (by omega), Nat.zero_add k, whole, List.take_take,
      Nat.min_eq_left (by omega), browsePages_next (by omega), front]
  · intro moves line shown
    rw [opened.shownLines] at shown
    exact List.mem_cons.mp (browsePages_mem shown)

end HrppBoot.Console

import GCode.Proofs.Reading.Localised
import GCode.Proofs.Scanning.Recased

/-!
# Reading a text in another case

The case of letters matters only in comments and in names. A text that is no line is refused in every case
for the same reason.
-/

namespace GCode

open Reader

/-! ## Line ends -/

theorem caseFree_isLineEnd : CaseFree Text.isLineEnd :=
  caseFree_of_letters (by decide)

/-- What is cut off at the end closes nothing. -/
theorem Region.next_take {r : Region} {c : Char} {cs : List Char} {n : Nat}
    (h : ∀ d ∈ cs.drop n, d ≠ ')' ∧ d ≠ '>') : r.next c (cs.take n) = r.next c cs := by
  have hmem : ∀ m, (∀ d ∈ cs.drop n, d ≠ m) → (m ∈ cs.take n ↔ m ∈ cs) := by
    intro m hm
    conv_rhs => rw [← List.take_append_drop n cs, List.mem_append]
    exact ⟨.inl, fun hor => hor.resolve_right fun hdrop => hm m hdrop rfl⟩
  cases r with
  | code => simp only [next, hmem ')' fun d hd => (h d hd).1, hmem '>' fun d hd => (h d hd).2]
  | upTo stop => rfl
  | toEnd => rfl

theorem Recased.take {r : Region} {cs ds : List Char} {n : Nat} (h : Recased r cs ds)
    (hback : ∀ d ∈ cs.drop n, d ≠ ')' ∧ d ≠ '>') : Recased r (cs.take n) (ds.take n) := by
  induction h generalizing n with
  | nil =>
      rw [List.take_nil]
      exact .nil
  | cons hlower hsame _ ih =>
      cases n with
      | zero => exact .nil
      | succ n =>
          rw [List.drop_succ_cons] at hback
          refine .cons hlower hsame ?_
          rw [Region.next_take hback]
          exact ih hback

theorem Recased.dropEndWhile {p : Char → Bool} {r : Region} {cs ds : List Char} (h : Recased r cs ds)
    (hp : CaseFree p) (hclose : ∀ c, p c = true → c ≠ ')' ∧ c ≠ '>') :
    Recased r (Text.dropEndWhile p cs) (Text.dropEndWhile p ds) := by
  have hlower := h.map_toLower
  have hreverse : cs.reverse.map Char.toLower = ds.reverse.map Char.toLower := by
    rw [List.map_reverse, List.map_reverse, hlower]
  have hlength := congrArg List.length hlower
  rw [List.length_map, List.length_map] at hlength
  have hend := Text.dropEndWhile_eq_take p cs
  obtain ⟨back, hback, hall⟩ := Text.exists_of_dropEndWhile p cs
  rw [hend, Text.dropEndWhile_eq_take, ← hp.length_takeWhile hreverse, ← hlength]
  refine h.take fun d hd => hclose d (hall d ?_)
  rw [hend] at hback
  rwa [List.append_cancel_left (hback.trans (List.take_append_drop _ cs).symm)]

theorem Recased.lineText {a b : String} (h : Recased .code a.toList b.toList) :
    Recased .code (lineText a).toList (lineText b).toList := by
  rw [Reader.lineText, Reader.lineText, String.toList_ofList, String.toList_ofList]
  refine h.dropEndWhile caseFree_isLineEnd fun c hc => ?_
  constructor <;> (rintro rfl; cases hc)

/-! ## Reading -/

/-- The error with the character that it reports in lower case. -/
def ReadError.lowered : ReadError → ReadError
  | lexical e => lexical e.lowered
  | e => e

theorem lowered_bind {α β : Type} {r r' : Except LexicalError α}
    (h : r.mapError LexicalError.lowered = r'.mapError LexicalError.lowered) (f : α → Except ReadError β) :
    (r.mapError ReadError.lexical >>= f).mapError ReadError.lowered =
      (r'.mapError ReadError.lexical >>= f).mapError ReadError.lowered := by
  cases r with
  | ok a =>
      cases r' with
      | ok b => cases h; rfl
      | error e' => cases h
  | error e =>
      cases r' with
      | ok b => cases h
      | error e' => exact congrArg (fun e => Except.error (ReadError.lexical e)) (Except.error.inj h)

theorem mapError_readLine_recased {a b : String} (h : Recased .code a.toList b.toList) :
    (readLine a).mapError ReadError.lowered = (readLine b).mapError ReadError.lowered := by
  have hline := h.lineText
  have hlength := congrArg List.length hline.map_toLower
  rw [List.length_map, List.length_map] at hlength
  rw [readLine_eq, readLine_eq, hlength]
  exact lowered_bind (tokenize_recased hline) _

/-- Texts that differ only in the case of letters in code are the same line, or they are refused with the
same error but for the case of the character that it reports. -/
theorem readLine_recased {a b : String} (h : Recased .code a.toList b.toList) :
    (∃ line, readLine a = .ok line ∧ readLine b = .ok line) ∨
      ∃ e e', readLine a = .error e ∧ readLine b = .error e' ∧ e.lowered = e'.lowered := by
  have hsame := mapError_readLine_recased h
  cases ha : readLine a with
  | ok line =>
      rw [ha] at hsame
      exact .inl ⟨line, rfl, mapError_eq_ok_iff.mp hsame.symm⟩
  | error e =>
      cases hb : readLine b with
      | ok line =>
          rw [ha, hb] at hsame
          cases hsame
      | error e' =>
          rw [ha, hb] at hsame
          exact .inr ⟨e, e', rfl, rfl, Except.error.inj hsame⟩

/-- A line with keywords, comments and a name, and a text that an unknown letter spoils. -/
theorem readLine_recased_texts :
    (Recased .code "n5 g1 x[SIN[3] Mod 2] (Ab) #<Ab>=aTAN[1]/[2]; Ab\r".toList
        "N5 G1 X[sin[3] mOD 2] (Ab) #<Ab>=Atan[1]/[2]; Ab\r".toList ∧
      ∃ line, readLine "n5 g1 x[SIN[3] Mod 2] (Ab) #<Ab>=aTAN[1]/[2]; Ab\r" = .ok line ∧
        readLine "N5 G1 X[sin[3] mOD 2] (Ab) #<Ab>=Atan[1]/[2]; Ab\r" = .ok line) ∧
    Recased .code "g1 (Ab) e5 (".toList "G1 (Ab) E5 (".toList ∧
      ∃ e e', readLine "g1 (Ab) e5 (" = .error e ∧ readLine "G1 (Ab) E5 (" = .error e' ∧ e.lowered = e'.lowered ∧
        e ≠ e' := by
  have haccepted : (readLine "n5 g1 x[SIN[3] Mod 2] (Ab) #<Ab>=aTAN[1]/[2]; Ab\r").isOk = true := by
    decide +kernel
  have hlower : readLine "g1 (Ab) e5 (" = .error (.lexical (.unexpectedCharacter 8 'e')) := by decide +kernel
  have hupper : readLine "G1 (Ab) E5 (" = .error (.lexical (.unexpectedCharacter 8 'E')) := by decide +kernel
  have h : Recased .code "n5 g1 x[SIN[3] Mod 2] (Ab) #<Ab>=aTAN[1]/[2]; Ab\r".toList
      "N5 G1 X[sin[3] mOD 2] (Ab) #<Ab>=Atan[1]/[2]; Ab\r".toList := by decide +kernel
  have h' : Recased .code "g1 (Ab) e5 (".toList "G1 (Ab) E5 (".toList := by decide +kernel
  refine ⟨⟨h, ?_⟩, h', ?_⟩
  · rcases readLine_recased h with hline | ⟨e, _, he, _⟩
    · exact hline
    · rw [he] at haccepted
      cases haccepted
  · rcases readLine_recased h' with ⟨line, hline, _⟩ | ⟨e, e', he, he', hsame⟩
    · cases hlower.symm.trans hline
    · refine ⟨e, e', he, he', hsame, ?_⟩
      rintro rfl
      cases hlower.symm.trans he
      cases hupper.symm.trans he'

end GCode

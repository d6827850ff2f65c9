import Mathlib
import SinglePass.Lexer.Rule

/-!
# Texts

General facts about texts as lists of characters: their bytes, and how a text is cut behind a run of characters of one
class.
-/

namespace SinglePass

/-! ### Bytes -/

@[simp]
theorem byteSize_append (u v : List Char) : byteSize (u ++ v) = byteSize u + byteSize v := by
  induction u with
  | nil => simp [byteSize]
  | cons c u ih => simp [byteSize, ih, Nat.add_assoc]

theorem byteSize_pos {u : List Char} (h : u ≠ []) : 0 < byteSize u := by
  obtain ⟨c, u, rfl⟩ := List.exists_cons_of_ne_nil h
  have := c.utf8Size_pos
  simp only [byteSize]
  omega

theorem utf8ByteSize_ofList (u : List Char) : (String.ofList u).utf8ByteSize = byteSize u := by
  induction u with
  | nil => rfl
  | cons c u ih => simp [String.ofList_cons, byteSize, ih]

theorem byteSize_toList (s : String) : byteSize s.toList = s.utf8ByteSize := by
  rw [← utf8ByteSize_ofList, String.ofList_toList]

/-- Of two beginnings of the same characters, the one with fewer bytes begins the other. -/
theorem exists_append_of_byteSize_le {u v a b : List Char} (h : u ++ v = a ++ b) (hle : byteSize u ≤ byteSize a) :
    ∃ more, a = u ++ more ∧ v = more ++ b := by
  rcases List.append_eq_append_iff.1 h with ⟨more, rfl, rfl⟩ | ⟨more, rfl, rfl⟩
  · exact ⟨more, rfl, rfl⟩
  · have hnil : more = [] := by
      by_contra hmore
      have hpos := byteSize_pos hmore
      rw [byteSize_append] at hle
      omega
    subst hnil
    exact ⟨[], by simp, rfl⟩

theorem Token.stop_mk (kind : Token.Kind) (u : List Char) (offset : Nat) :
    (Token.mk kind (String.ofList u) offset).stop = offset + byteSize u := by
  rw [Token.stop, utf8ByteSize_ofList]

theorem Token.stop_eq (t : Token) : t.stop = t.offset + byteSize t.text.toList := by
  rw [stop, byteSize_toList]

/-! ### Runs of characters -/

section

variable {s : Char → Bool} {u v : List Char}

theorem takeWhile_append_of_ends (hu : ∀ c ∈ u, s c = true) (hv : ∀ c ∈ v.head?, s c = false) :
    (u ++ v).takeWhile s = u := by
  rw [List.takeWhile_append_of_pos hu]
  cases v with
  | nil => simp
  | cons c v => simp [hv c rfl]

theorem dropWhile_append_of_ends (hu : ∀ c ∈ u, s c = true) (hv : ∀ c ∈ v.head?, s c = false) :
    (u ++ v).dropWhile s = v := by
  rw [List.dropWhile_append_of_pos hu]
  cases v with
  | nil => rfl
  | cons c v => simp [hv c rfl]

theorem takeWhile_ne_nil {c : Char} (cs : List Char) (hc : s c = true) : (c :: cs).takeWhile s ≠ [] := by
  simp [hc]

theorem not_of_mem_head?_dropWhile (s : Char → Bool) (cs : List Char) :
    ∀ c ∈ (cs.dropWhile s).head?, s c = false := by
  intro c hc
  have hhead := List.head?_dropWhile_not s cs
  rw [Option.mem_def.1 hc] at hhead
  exact hhead

/-- A run of characters of a class, with what follows it. -/
theorem takeWhile_run (s : Char → Bool) (cs : List Char) : cs = cs.takeWhile s ++ cs.dropWhile s ∧
    (∀ c ∈ cs.takeWhile s, s c = true) ∧ ∀ c ∈ (cs.dropWhile s).head?, s c = false :=
  ⟨List.takeWhile_append_dropWhile.symm, fun _ hc => List.mem_takeWhile_imp hc, not_of_mem_head?_dropWhile s cs⟩

end

end SinglePass

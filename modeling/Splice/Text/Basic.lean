set_option autoImplicit false

namespace Splice

/-- A text is the list of its characters. -/
abbrev Text := List Char

namespace Text

def same : Text → Text → Bool
  | [], [] => true
  | a :: t, b :: u => if a = b then same t u else false
  | _, _ => false

theorem same_iff {t u : Text} : same t u = true ↔ t = u := by
  induction t generalizing u with
  | nil => cases u <;> simp [same]
  | cons a t ih =>
    cases u with
    | nil => simp [same]
    | cons b u => by_cases h : a = b <;> simp [same, h, ih]

instance decidableEq : DecidableEq Text := fun _ _ => decidable_of_iff _ same_iff

instance beq : BEq Text := instBEqOfDecidableEq

instance lawful : LawfulBEq Text := inferInstance

def after? : Text → Text → Option Text
  | [], t => some t
  | _ :: _, [] => none
  | a :: p, b :: t => if a = b then after? p t else none

theorem after?_append (p t : Text) : after? p (p ++ t) = some t := by
  induction p with
  | nil => rfl
  | cons a p ih => simp [after?, ih]

theorem after?_eq_some {p t r : Text} : after? p t = some r ↔ t = p ++ r := by
  induction p generalizing t with
  | nil => simp [after?, eq_comm]
  | cons a p ih =>
    cases t with
    | nil => simp [after?]
    | cons b t =>
      by_cases h : a = b
      · simp [after?, h, ih]
      · simp [after?, h, Ne.symm h]

def startsWith (p t : Text) : Bool := (after? p t).isSome

def extend (c : Char) : List Text → List Text
  | [] => [[c]]
  | p :: ps => (c :: p) :: ps

def pieces (sep : Char) : Text → List Text
  | [] => [[]]
  | c :: t => if c = sep then [] :: pieces sep t else extend c (pieces sep t)

def cut (sep : Char) : Text → Text × Option Text
  | [] => ([], none)
  | c :: t => if c = sep then ([], some t) else (c :: (cut sep t).1, (cut sep t).2)

def substitute (a b : Char) (t : Text) : Text := t.map fun c => if c = a then b else c

def join (sep : Text) : List Text → Text
  | [] => []
  | [t] => t
  | t :: u :: r => t ++ sep ++ join sep (u :: r)

theorem mem_join {c : Char} {sep : Text} {ps : List Text} (h : c ∈ join sep ps) :
    c ∈ sep ∨ ∃ p ∈ ps, c ∈ p := by
  induction ps with
  | nil => cases h
  | cons p ps ih =>
    cases ps with
    | nil => exact .inr ⟨p, List.mem_singleton.2 rfl, h⟩
    | cons q ps =>
      simp only [join, List.mem_append] at h
      rcases h with (h | h) | h
      · exact .inr ⟨p, List.mem_cons_self, h⟩
      · exact .inl h
      · rcases ih h with h | ⟨p', hp', h⟩
        · exact .inl h
        · exact .inr ⟨p', List.mem_cons_of_mem p hp', h⟩

theorem mem_join_of_mem {c : Char} {p : Text} {ps : List Text} (sep : Text) (hp : p ∈ ps)
    (hc : c ∈ p) : c ∈ join sep ps := by
  induction ps with
  | nil => cases hp
  | cons q ps ih =>
    cases ps with
    | nil => exact List.mem_singleton.1 hp ▸ hc
    | cons q' ps =>
      rw [join, List.append_assoc, List.mem_append]
      rcases List.mem_cons.1 hp with rfl | hp
      · exact .inl hc
      · exact .inr (List.mem_append_right _ (ih hp))

def ofNat (n : Nat) : Text := Nat.toDigits 10 n

def ofInt : Int → Text
  | .ofNat n => ofNat n
  | .negSucc n => '-' :: ofNat (n + 1)

/-- A hexadecimal numeral in small letters, filled up with zeros to the given width. -/
def hex (width n : Nat) : Text :=
  let digits := Nat.toDigits 16 n
  List.replicate (width - digits.length) '0' ++ digits

def hexDigit? (c : Char) : Option Nat :=
  if '0' ≤ c ∧ c ≤ '9' then some (c.toNat - 48)
  else if 'a' ≤ c ∧ c ≤ 'f' then some (c.toNat - 87)
  else if 'A' ≤ c ∧ c ≤ 'F' then some (c.toNat - 55)
  else none

def decimal (digits : Text) : Nat := digits.foldl (fun n c => 10 * n + (c.toNat - 48)) 0

end Text
end Splice

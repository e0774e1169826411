import Splice.Text.Basic

set_option autoImplicit false

namespace Splice.Toml

def isSpace (c : Char) : Bool := c = ' ' || c = '\t'

def skipSpace (t : Text) : Text := t.dropWhile isSpace

def skipLines (t : Text) : Text := t.dropWhile fun c => isSpace c || c = '\n'

def isControl (c : Char) : Bool := (c.toNat < 0x20 && c ≠ '\t') || c.toNat = 0x7F

def isPlain (multiline : Bool) (c : Char) : Bool := !isControl c || (multiline && c = '\n')

def escape? (c : Char) : Option Char :=
  if c = '"' ∨ c = '\\' then some c
  else if c = 'b' then some '\x08'
  else if c = 't' then some '\t'
  else if c = 'n' then some '\n'
  else if c = 'f' then some '\x0c'
  else if c = 'r' then some '\r'
  else none

def codePoint? (digits : Text) : Option Char :=
  match digits.mapM Text.hexDigit? with
  | none => none
  | some ds =>
    let n := ds.foldl (fun n d => 16 * n + d) 0
    if n < 0xD800 ∨ (0xE000 ≤ n ∧ n < 0x110000) then some (Char.ofNat n) else none

/-- What follows the spaces at a backslash that ends a line: the next line on which there is
something. -/
def continuation? (t : Text) : Option Text :=
  match skipSpace t with
  | '\n' :: t => some (skipLines t)
  | _ => none

def basic? (multiline : Bool) : Nat → Text → Option (Text × Text)
  | 0, _ => none
  | fuel + 1, t =>
    let more (c : Char) (t : Text) : Option (Text × Text) :=
      (basic? multiline fuel t).map fun p => (c :: p.1, p.2)
    match t with
    | [] => none
    | '"' :: t =>
      if multiline then
        match t with
        | '"' :: '"' :: t => some ([], t)
        | t => more '"' t
      else some ([], t)
    | '\\' :: 'u' :: a :: b :: c :: d :: t => (codePoint? [a, b, c, d]).bind (more · t)
    | '\\' :: 'U' :: a :: b :: c :: d :: e :: f :: g :: h :: t =>
      (codePoint? [a, b, c, d, e, f, g, h]).bind (more · t)
    | '\\' :: c :: t =>
      match escape? c with
      | some c => more c t
      | none => if multiline then (continuation? (c :: t)).bind (basic? multiline fuel) else none
    | c :: t => if isPlain multiline c then more c t else none

def literal? (multiline : Bool) : Text → Option (Text × Text)
  | [] => none
  | '\'' :: '\'' :: '\'' :: t =>
    if multiline then some ([], t) else some ([], '\'' :: '\'' :: t)
  | c :: t =>
    if c = '\'' ∧ !multiline then some ([], t)
    else if isPlain multiline c then (literal? multiline t).map fun p => (c :: p.1, p.2)
    else none

/-- Up to two delimiters right after a closing triple belong to the string. -/
def widen (quote : Char) (p : Text × Text) : Text × Text :=
  match p.2 with
  | a :: b :: t =>
    if a = quote then (if b = quote then (p.1 ++ [a, b], t) else (p.1 ++ [a], b :: t)) else p
  | [a] => if a = quote then (p.1 ++ [a], []) else p
  | [] => p

def dropFirstLine : Text → Text
  | '\n' :: t => t
  | t => t

def line? : Text → Option (Text × Text)
  | '"' :: t => basic? false (t.length + 1) t
  | '\'' :: t => literal? false t
  | _ => none

def string? : Text → Option (Text × Text)
  | '"' :: '"' :: '"' :: t => (basic? true (t.length + 1) (dropFirstLine t)).map (widen '"')
  | '\'' :: '\'' :: '\'' :: t => (literal? true (dropFirstLine t)).map (widen '\'')
  | t => line? t

end Splice.Toml

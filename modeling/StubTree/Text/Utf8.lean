/-! # UTF-8 in pieces

Bytes as the characters that they spell, one after the other, and the byte that shows that they
go wrong. It can come after the first byte of a character, and where the bytes end inside a
character it is the one that is missing.
-/

namespace StubTree.Text

/-- A character and the number of bytes up to its end. -/
structure Spelled where
  char : Char
  stop : Nat

/-- What the later bytes of a character may be, by its first byte. -/
def laterBytes? (first : Nat) : Option (List (Nat × Nat)) :=
  let later := (0x80, 0xBF)
  if first < 0x80 then some []
  else if first < 0xC2 then none
  else if first < 0xE0 then some [later]
  else if first == 0xE0 then some [(0xA0, 0xBF), later]
  else if first == 0xED then some [(0x80, 0x9F), later]
  else if first < 0xF0 then some [later, later]
  else if first == 0xF0 then some [(0x90, 0xBF), later, later]
  else if first < 0xF4 then some [later, later, later]
  else if first == 0xF4 then some [(0x80, 0x8F), later, later]
  else none

/-- The number of bytes that fit, and what is left of the ranges behind them. -/
def fitting : List (Nat × Nat) → List UInt8 → Nat × List (Nat × Nat)
  | (least, most) :: ranges, b :: rest =>
    if least ≤ b.toNat && b.toNat ≤ most then
      let (n, left) := fitting ranges rest
      (n + 1, left)
    else (0, (least, most) :: ranges)
  | ranges, _ => (0, ranges)

/-- The number of a character: six bits of each later byte follow those of the first. -/
def codeOf (first : Nat) (later : List UInt8) : Nat :=
  let lead := match later.length with
    | 0 => first
    | 1 => first % 0x20
    | 2 => first % 0x10
    | _ => first % 0x08
  later.foldl (fun acc b => acc * 0x40 + b.toNat % 0x40) lead

/-- The characters that bytes spell from the byte `start` on, as far as they do, and the byte
that shows that they go wrong, if one does. -/
def spelled : Nat → Nat → List UInt8 → List Spelled × Option Nat
  | 0, _, _ | _, _, [] => ([], none)
  | fuel + 1, start, first :: rest =>
    match laterBytes? first.toNat with
    | none => ([], some start)
    | some ranges =>
      match fitting ranges rest with
      | (n, []) =>
        let stop := start + 1 + n
        let (later, wrong) := spelled fuel stop (rest.drop n)
        (⟨Char.ofNat (codeOf first.toNat (rest.take n)), stop⟩ :: later, wrong)
      | (n, _) => ([], some (start + 1 + n))

/-- Writes every line ending as one line feed. A carriage return counts as read only when what
follows it is. -/
def unifySpelled : List Spelled → List Spelled
  | [] => []
  | [c] => [c]
  | c :: d :: rest =>
    if c.char == '\r' then
      if d.char == '\n' then d :: unifySpelled rest
      else ⟨'\n', d.stop⟩ :: unifySpelled (d :: rest)
    else c :: unifySpelled (d :: rest)

end StubTree.Text

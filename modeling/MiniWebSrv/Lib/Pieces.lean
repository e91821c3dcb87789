import Mathlib.Data.List.Basic

/-! # Streams in pieces

A stream comes in pieces, one after another. Its front part and what is behind it come in pieces
as well.
-/

namespace MiniWebSrv.Pieces

variable {A : Type}

/-- The first `n` elements, in the pieces in which they come. -/
def takeFirst (n : Nat) : List (List A) → List (List A)
  | [] => []
  | piece :: rest =>
      if piece.length < n then piece :: takeFirst (n - piece.length) rest else [piece.take n]

/-- What comes behind them. What is left of the piece which they end in is the first piece. -/
def dropFirst (n : Nat) : List (List A) → List (List A)
  | [] => []
  | piece :: rest =>
      if piece.length < n then dropFirst (n - piece.length) rest else piece.drop n :: rest

theorem takeFirst_cons_of_lt {n : Nat} {piece : List A} (less : piece.length < n)
    (rest : List (List A)) :
    takeFirst n (piece :: rest) = piece :: takeFirst (n - piece.length) rest := if_pos less

theorem takeFirst_cons_of_le {n : Nat} {piece : List A} (enough : n ≤ piece.length)
    (rest : List (List A)) : takeFirst n (piece :: rest) = [piece.take n] :=
  if_neg (Nat.not_lt.mpr enough)

theorem dropFirst_cons_of_lt {n : Nat} {piece : List A} (less : piece.length < n)
    (rest : List (List A)) :
    dropFirst n (piece :: rest) = dropFirst (n - piece.length) rest := if_pos less

theorem dropFirst_cons_of_le {n : Nat} {piece : List A} (enough : n ≤ piece.length)
    (rest : List (List A)) : dropFirst n (piece :: rest) = piece.drop n :: rest :=
  if_neg (Nat.not_lt.mpr enough)

end MiniWebSrv.Pieces

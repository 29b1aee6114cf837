import Daimonos.Framework.Decimal
import Daimonos.Framework.Ring
import Daimonos.Session.EventRouter

namespace Daimonos.Ops

open Framework List
open Session (u64Max)

/-- What is kept of an output stream: its first bytes, its last ones, and how many came, counted in
a `u64`. -/
structure BoundedStream where
  head : List UInt8 := []
  tail : List UInt8 := []
  total : Nat := 0

namespace BoundedStream

def pushTail (tailLimit : Nat) (tail : List UInt8) (byte : UInt8) : List UInt8 :=
  let tail := if tail.length=tailLimit then tail.drop 1 else tail
  if 0<tailLimit then tail ++ [byte] else tail

def push (limit : Nat) (s : BoundedStream) (bytes : List UInt8) : BoundedStream :=
  let headLimit := limit/2
  let take := min (headLimit-s.head.length) bytes.length
  { total := min (s.total+bytes.length) u64Max
    head := s.head ++ bytes.take take
    tail := (bytes.drop take).foldl (pushTail (limit-headLimit)) s.tail }

/-- `lossy` is `String::from_utf8_lossy`. -/
def render (lossy : List UInt8 → List Char) (limit : Nat) (s : BoundedStream) : List Char :=
  if s.total ≤ limit then lossy (s.head++s.tail)
  else
    lossy s.head ++ "\n\n... [".toList ++ decimal (s.total - (s.head.length+s.tail.length)) ++
      " bytes truncated while reading] ...\n\n".toList ++ lossy s.tail

theorem foldl_pushTail (n : Nat) (xs ys : List UInt8) :
    ys.foldl (pushTail n) (trimFront n xs) = trimFront n (xs++ys) := by
  induction ys generalizing xs with
  | nil => rw [foldl_nil,append_nil]
  | cons y ys ih =>
    have hpush : pushTail n (trimFront n xs) y = trimFront n (xs ++ [y]) := by
      have hlength := length_trimFront n xs
      rw [pushTail,← retain_trimFront,retain,trimFront_eq_drop n (_++_),length_append,hlength,
        length_singleton]
      split_ifs with hpos hfull hfull
      · rw [drop_append_of_le_length (by omega),show min xs.length n + 1-n = 1 by omega]
      · rw [show min xs.length n + 1-n = 0 by omega,drop_zero]
      · rw [eq_nil_of_length_eq_zero (hlength.trans (by omega)),drop_nil]
      · rfl
    rw [foldl_cons,hpush,ih,append_assoc,singleton_append]

/-- Of the stream so far the first half of the limit is kept, and the end of the rest. -/
structure Retains (limit : Nat) (all : List UInt8) (s : BoundedStream) : Prop where
  head : s.head = all.take (limit/2)
  tail : s.tail = trimFront (limit-limit/2) (all.drop (limit/2))
  total : s.total = min all.length u64Max

theorem Retains.push {limit : Nat} {all : List UInt8} {s : BoundedStream} (h : Retains limit all s)
    (bytes : List UInt8) : Retains limit (all++bytes) (s.push limit bytes) := by
  have htake : limit/2-s.head.length=limit/2-all.length := by
    rw [h.head,length_take]
    omega
  have hdrop : bytes.drop (min (limit/2-all.length) bytes.length) =
      bytes.drop (limit/2-all.length) := drop_eq_drop_iff.mpr (by omega)
  refine ⟨?_,?_,?_⟩
  · rw [BoundedStream.push,htake,h.head,← take_eq_take_min,take_append]
  · rw [BoundedStream.push,htake,hdrop,h.tail,foldl_pushTail,drop_append]
  · rw [BoundedStream.push,h.total,length_append]
    dsimp only
    omega

/-- However the output comes in chunks, it is shown whole up to the limit, and beyond it with the
number of the bytes left out between its two ends, which is exact up to 2^64 bytes. -/
theorem render_exact (lossy : List UInt8 → List Char) (limit : Nat) (hlimit : limit<u64Max)
    (chunks : List (List UInt8)) :
    (chunks.foldl (push limit) {}).render lossy limit =
      let all := chunks.flatten
      if all.length ≤ limit then lossy all
      else
        lossy (all.take (limit/2)) ++ "\n\n... [".toList ++ decimal (min all.length u64Max - limit) ++
          " bytes truncated while reading] ...\n\n".toList ++
          lossy (all.drop (all.length - (limit-limit/2))) := by
  have hretains : ∀ all s, Retains limit all s →
      Retains limit (all++chunks.flatten) (chunks.foldl (push limit) s) := by
    induction chunks with
    | nil => simp
    | cons bytes chunks ih => exact fun all s h => by simpa using ih _ _ (h.push bytes)
  obtain ⟨hhead,htail,htotal⟩ := hretains [] {} ⟨take_nil.symm,by simp [trimFront],rfl⟩
  rw [nil_append] at hhead htail htotal
  generalize chunks.flatten = all at hhead htail htotal ⊢
  have hfits : min all.length u64Max ≤ limit ↔ all.length ≤ limit := by omega
  simp only [render,hhead,htail,htotal,trimFront_eq_drop,drop_drop,length_take,length_drop,hfits]
  split_ifs with hle
  · rw [show all.length-limit/2 - (limit-limit/2) = 0 by omega,Nat.add_zero,take_append_drop]
  · congr 3
    · congr 2
      omega
    · omega

/-- Six bytes in two reads, with room for four. -/
theorem render_exact_six :
    (([[104, 101], [108, 108, 111, 33]].foldl (push 4) {}).render (map fun b => Char.ofNat b.toNat) 4) =
      "he\n\n... [2 bytes truncated while reading] ...\n\no!".toList :=
  (render_exact (map fun b => Char.ofNat b.toNat) 4 (by decide) _).trans (by decide)

end BoundedStream

end Daimonos.Ops

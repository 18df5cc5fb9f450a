import ModuleAtlas.Image.RuntimeImage
import ModuleAtlas.Image.Writer

/-! # The words of an image

Header and tables of an image are words of four bytes.  Words that are written one after the other
are read back at their places (`word_words`, `readTable_words`), as long as each of them fits, and
whatever follows.  The mark reads differently in the two byte orders, so it tells which of them the
other words are written in (`byteOrder_words`).
-/
namespace ModuleAtlas.Image

open Binary (ByteOrder)

/-- The numbers that fit into a word lie below this. -/
def wordLimit : Nat := 0x100000000

variable {order : ByteOrder} {words : List Nat}

theorem length_words (order : ByteOrder) (words : List Nat) :
    (words.flatMap (order.write 4)).length = 4 * words.length := by
  induction words with
  | nil => rfl
  | cons n words ih =>
    rw [List.flatMap_cons, List.length_append, ByteOrder.length_write, ih, List.length_cons]
    omega

theorem take_word (n : Nat) (rest : Bytes) : (order.write 4 n ++ rest).take 4 = order.write 4 n :=
  List.take_left' (ByteOrder.length_write order 4 n)

theorem drop_word (n : Nat) (rest : Bytes) : (order.write 4 n ++ rest).drop 4 = rest :=
  List.drop_left' (ByteOrder.length_write order 4 n)

theorem word_words (rest : Bytes) {i n : Nat} (hi : words[i]? = some n) (hn : n < wordLimit) :
    word order (words.flatMap (order.write 4) ++ rest) (4 * i) = n := by
  induction words generalizing i with
  | nil => cases hi
  | cons m words ih =>
    unfold word at ih ⊢
    rw [List.flatMap_cons, List.append_assoc]
    cases i with
    | zero =>
      obtain rfl : m = n := Option.some.inj hi
      rw [Nat.mul_zero, List.drop_zero, take_word]
      exact ByteOrder.value_write hn
    | succ i =>
      rw [show 4 * (i + 1) = 4 + 4 * i by omega, ← List.drop_drop, drop_word]
      exact ih hi

theorem readTable_words (rest : Bytes) (h : ∀ n ∈ words, n < wordLimit) :
    readTable order words.length (words.flatMap (order.write 4) ++ rest) = words := by
  induction words with
  | nil => rfl
  | cons n words ih =>
    have hn : order.value (order.write 4 n) = n := ByteOrder.value_write (h n List.mem_cons_self)
    rw [List.length_cons, readTable, List.flatMap_cons, List.append_assoc, take_word, drop_word, hn,
      ih fun m hm => h m (List.mem_cons_of_mem _ hm)]

theorem byteOrder_words (words : List Nat) (rest : Bytes) :
    byteOrder ((magic :: words).flatMap (order.write 4) ++ rest) = .ok order := by
  have hfirst : (magic :: words)[0]? = some magic := rfl
  have hmagic : word order ((magic :: words).flatMap (order.write 4) ++ rest) 0 = magic :=
    word_words rest hfirst (by decide)
  cases order with
  | little => rw [byteOrder, if_pos hmagic]
  | big =>
    have hreversed : word .little ((magic :: words).flatMap (ByteOrder.write .big 4) ++ rest) 0 ≠
        magic := by
      unfold word
      rw [List.drop_zero, List.flatMap_cons, List.append_assoc, take_word]
      decide
    rw [byteOrder, if_neg hreversed, if_pos hmagic]

end ModuleAtlas.Image

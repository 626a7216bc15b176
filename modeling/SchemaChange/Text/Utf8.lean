/-!
# Lengths in UTF-8 bytes

Limits and positions count the bytes of the UTF-8 encoding, while texts are
scanned character by character. The two views meet here.
-/
namespace SchemaChange.Text

/-- The number of bytes that encode the characters. -/
def byteLength : List Char → Nat
  | [] => 0
  | c :: cs => c.utf8Size + byteLength cs

@[simp] theorem byteLength_nil : byteLength [] = 0 := rfl

@[simp] theorem byteLength_cons (c : Char) (cs : List Char) :
    byteLength (c :: cs) = c.utf8Size + byteLength cs := rfl

@[simp] theorem byteLength_append (cs ds : List Char) :
    byteLength (cs ++ ds) = byteLength cs + byteLength ds := by
  induction cs with
  | nil => simp
  | cons c cs ih => simp [ih, Nat.add_assoc]

/-- The longest run of leading characters that fits into `limit` bytes. -/
def takeBytes (limit : Nat) : List Char → List Char
  | [] => []
  | c :: cs =>
      if c.utf8Size ≤ limit then c :: takeBytes (limit - c.utf8Size) cs else []

theorem byteLength_takeBytes_le (limit : Nat) (cs : List Char) :
    byteLength (takeBytes limit cs) ≤ limit := by
  induction cs generalizing limit with
  | nil => simp [takeBytes]
  | cons c cs ih =>
      rw [takeBytes]
      split
      · have := ih (limit - c.utf8Size)
        simp only [byteLength_cons]
        omega
      · simp

/-- The number of leading characters that a byte position stands behind. -/
def charsBefore (position : Nat) (cs : List Char) : Nat := (takeBytes position cs).length

end SchemaChange.Text

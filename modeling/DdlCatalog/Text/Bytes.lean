namespace DdlCatalog.Text

def byteSize (cs : List Char) : Nat :=
  cs.foldr (fun c size => c.utf8Size + size) 0

/-- The longest run of characters at the front that takes at most `n` bytes. -/
def takeBytes : (n : Nat) → List Char → List Char
  | _, [] => []
  | n, c :: cs => if c.utf8Size ≤ n then c :: takeBytes (n - c.utf8Size) cs else []

def dropBytes (n : Nat) (cs : List Char) : List Char :=
  cs.drop (takeBytes n cs).length

def between (start stop : Nat) (text : List Char) : List Char :=
  takeBytes (stop - start) (dropBytes start text)

def newlines (cs : List Char) : Nat :=
  cs.count '\n'

@[simp] theorem byteSize_nil : byteSize [] = 0 := rfl

@[simp] theorem byteSize_cons (c : Char) (cs : List Char) :
    byteSize (c :: cs) = c.utf8Size + byteSize cs := rfl

@[simp] theorem byteSize_append (xs ys : List Char) :
    byteSize (xs ++ ys) = byteSize xs + byteSize ys := by
  induction xs with
  | nil => simp
  | cons c cs ih => rw [List.cons_append, byteSize_cons, ih, byteSize_cons, Nat.add_assoc]

theorem byteSize_pos {cs : List Char} (h : cs ≠ []) : 0 < byteSize cs := by
  cases cs with
  | nil => exact absurd rfl h
  | cons c cs => have := c.utf8Size_pos; simp only [byteSize_cons]; omega

theorem byteSize_takeBytes_le (n : Nat) (cs : List Char) : byteSize (takeBytes n cs) ≤ n := by
  fun_induction takeBytes n cs with
  | case1 => simp
  | case2 n c cs h ih => simp only [byteSize_cons]; omega
  | case3 => simp

theorem takeBytes_append_dropBytes (n : Nat) (cs : List Char) :
    takeBytes n cs ++ dropBytes n cs = cs := by
  fun_induction takeBytes n cs with
  | case1 => simp [dropBytes, takeBytes]
  | case2 n c cs h ih => simpa [dropBytes, takeBytes, h] using ih
  | case3 n c cs h => simp [dropBytes, takeBytes, h]

theorem takeBytes_append (front back : List Char) :
    takeBytes (byteSize front) (front ++ back) = front := by
  induction front with
  | nil =>
    cases back with
    | nil => rfl
    | cons c cs => simp [takeBytes, Nat.ne_of_gt c.utf8Size_pos]
  | cons c cs ih => simp [takeBytes, ih]

theorem between_append (before span after : List Char) :
    between (byteSize before) (byteSize (before ++ span)) (before ++ (span ++ after)) = span := by
  have hdrop : dropBytes (byteSize before) (before ++ (span ++ after)) = span ++ after := by
    rw [dropBytes, takeBytes_append, List.drop_left]
  rw [between, hdrop, byteSize_append, Nat.add_sub_cancel_left, takeBytes_append]

@[simp] theorem newlines_append (xs ys : List Char) :
    newlines (xs ++ ys) = newlines xs + newlines ys := by
  simp [newlines]

end DdlCatalog.Text

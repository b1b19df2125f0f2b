import Mathlib.Data.Vector.Basic

/-!
# Head and tail layouts

A format that lays values of fixed size out in place and puts the others behind an offset, which
is counted from the start of the value that contains them. Reading undoes writing, whatever
follows.
-/

namespace HeadTail

variable {β : Type}

/-- How numbers below a bound are written in words of one length. -/
structure WordFormat (β : Type) where
  length : Nat
  bound : Nat
  write : Nat → List β
  read : List β → Nat
  length_write : ∀ n, (write n).length = length
  read_write : ∀ n rest, n < bound → read (write n ++ rest) = n

/-- How the values of a type are laid out. A dynamic one is reached through an offset. -/
structure Layout (w : WordFormat β) (A : Type) where
  dynamic : Bool
  size : Nat
  /-- The values that can be written. -/
  valid : A → Prop
  encode : A → List β
  decode : List β → Option A
  size_dynamic : dynamic = true → size = w.length
  length_encode : dynamic = false → ∀ a, (encode a).length = size
  decode_encode : ∀ a rest, valid a → (encode a).length < w.bound →
    decode (encode a ++ rest) = some a

/-- Values one after the other: first their heads, then the tails of the dynamic ones. -/
structure Fields (w : WordFormat β) (A : Type) where
  dynamic : Bool
  size : Nat
  valid : A → Prop
  /-- The heads, when the tails start at an offset. -/
  heads : Nat → A → List β
  tails : A → List β
  read : List β → Nat → Option A
  length_heads : ∀ offset a, (heads offset a).length = size
  tails_static : dynamic = false → ∀ a, tails a = []
  read_encode : ∀ a before between rest offset, valid a →
    offset = before.length + size + between.length → offset + (tails a).length < w.bound →
    read (before ++ (heads offset a ++ (between ++ (tails a ++ rest)))) before.length = some a

variable {w : WordFormat β} {A B : Type}

lemma drop_append_eq {l rest : List β} {n : Nat} (h : n = l.length) : (l ++ rest).drop n = rest :=
  List.drop_left' h.symm

namespace Layout

def map (c : Layout w A) (split : B → A) (build : A → B) (h : ∀ b, build (split b) = b) :
    Layout w B where
  dynamic := c.dynamic
  size := c.size
  valid b := c.valid (split b)
  encode b := c.encode (split b)
  decode l := (c.decode l).map build
  size_dynamic := c.size_dynamic
  length_encode hstatic b := c.length_encode hstatic (split b)
  decode_encode b rest hvalid hbound := by
    rw [c.decode_encode _ rest hvalid hbound, Option.map_some, h]

/-- The head of a field whose tail, if it has one, starts at an offset. -/
def head (c : Layout w A) (offset : Nat) (a : A) : List β :=
  if c.dynamic then w.write offset else c.encode a

def tail (c : Layout w A) (a : A) : List β :=
  if c.dynamic then c.encode a else []

def readAt (c : Layout w A) (l : List β) (position : Nat) : Option A :=
  if c.dynamic then c.decode (l.drop (w.read (l.drop position))) else c.decode (l.drop position)

lemma length_head (c : Layout w A) (offset : Nat) (a : A) : (c.head offset a).length = c.size := by
  unfold head
  cases h : c.dynamic
  · exact c.length_encode h a
  · exact (w.length_write offset).trans (c.size_dynamic h).symm

/-- A field is read back from its head and from its tail wherever that is. -/
lemma readAt_head (c : Layout w A) {a : A} (hvalid : c.valid a) (before after rest : List β)
    {offset : Nat} (hoffset : offset = before.length + c.size + after.length)
    (hbound : offset + (c.tail a).length < w.bound) :
    c.readAt (before ++ (c.head offset a ++ (after ++ (c.tail a ++ rest)))) before.length =
      some a := by
  unfold readAt
  rw [drop_append_eq rfl]
  cases h : c.dynamic
  · have hlength := c.length_encode h a
    unfold head
    rw [h]
    exact c.decode_encode a _ hvalid (by omega)
  · have hhead := c.length_head offset a
    unfold head tail at *
    rw [if_pos h] at hhead hbound
    rw [if_pos h, if_pos h, if_pos rfl, w.read_write _ _ (by omega)]
    have hdrop : offset = (before ++ (w.write offset ++ after)).length := by
      rw [List.length_append, List.length_append]
      omega
    have hassoc : before ++ (w.write offset ++ (after ++ (c.encode a ++ rest))) =
        (before ++ (w.write offset ++ after)) ++ (c.encode a ++ rest) := by
      simp only [List.append_assoc]
    rw [hassoc, drop_append_eq hdrop]
    exact c.decode_encode a rest hvalid (by omega)

end Layout

namespace Fields

def nil : Fields w Unit where
  dynamic := false
  size := 0
  valid _ := True
  heads _ _ := []
  tails _ := []
  read _ _ := some ()
  length_heads _ _ := rfl
  tails_static _ _ := rfl
  read_encode _ _ _ _ _ _ _ _ := rfl

def cons (c : Layout w A) (f : Fields w B) : Fields w (A × B) where
  dynamic := c.dynamic || f.dynamic
  size := c.size + f.size
  valid x := c.valid x.1 ∧ f.valid x.2
  heads offset x := c.head offset x.1 ++ f.heads (offset + (c.tail x.1).length) x.2
  tails x := c.tail x.1 ++ f.tails x.2
  read l position := do
    let a ← c.readAt l position
    let b ← f.read l (position + c.size)
    return (a, b)
  length_heads offset x := by
    rw [List.length_append, c.length_head, f.length_heads]
  tails_static h x := by
    rw [Bool.or_eq_false_iff] at h
    unfold Layout.tail
    rw [h.1, f.tails_static h.2]
    rfl
  read_encode x before between rest offset hvalid hoffset hbound := by
    obtain ⟨hfirst, hrest⟩ := hvalid
    rw [List.length_append] at hbound
    have hafter : offset = before.length + c.size +
        (f.heads (offset + (c.tail x.1).length) x.2 ++ between).length := by
      rw [List.length_append, f.length_heads]
      omega
    have hread := c.readAt_head hfirst before _ (f.tails x.2 ++ rest) hafter (by omega)
    have hreads := f.read_encode x.2 (before ++ c.head offset x.1) (between ++ c.tail x.1) rest
      (offset + (c.tail x.1).length) hrest
      (by rw [List.length_append, List.length_append, c.length_head]; omega) (by omega)
    simp only [List.append_assoc, List.length_append, c.length_head] at hread hreads ⊢
    rw [hread, hreads]
    rfl

def map (f : Fields w A) (split : B → A) (build : A → B) (h : ∀ b, build (split b) = b) :
    Fields w B where
  dynamic := f.dynamic
  size := f.size
  valid b := f.valid (split b)
  heads offset b := f.heads offset (split b)
  tails b := f.tails (split b)
  read l position := (f.read l position).map build
  length_heads offset b := f.length_heads offset (split b)
  tails_static hstatic b := f.tails_static hstatic (split b)
  read_encode b before between rest offset hvalid hoffset hbound := by
    rw [f.read_encode _ before between rest offset hvalid hoffset hbound, Option.map_some, h]

def replicate (c : Layout w A) : (n : Nat) → Fields w (List.Vector A n)
  | 0 => nil.map (fun _ => ()) (fun _ => .nil) fun v => (List.Vector.eq_nil v).symm
  | n + 1 => (cons c (replicate c n)).map (fun v => (v.head, v.tail)) (fun x => x.1 ::ᵥ x.2)
      List.Vector.cons_head_tail

def layout (f : Fields w A) : Layout w A where
  dynamic := f.dynamic
  size := if f.dynamic then w.length else f.size
  valid := f.valid
  encode a := f.heads f.size a ++ f.tails a
  decode l := f.read l 0
  size_dynamic h := by rw [h, if_pos rfl]
  length_encode h a := by
    rw [f.tails_static h, List.append_nil, f.length_heads, h]
    rfl
  decode_encode a rest hvalid hbound := by
    rw [List.length_append, f.length_heads] at hbound
    have h := f.read_encode a [] [] rest f.size hvalid (Nat.zero_add _).symm hbound
    rw [List.append_assoc]
    exact h

end Fields

namespace Layout

def ofList (l : List A) : List.Vector A l.length := ⟨l, rfl⟩

/-- A list, behind its length. -/
def array (c : Layout w A) : Layout w (List A) where
  dynamic := true
  size := w.length
  valid l := (Fields.replicate c l.length).valid (ofList l) ∧ l.length < w.bound
  encode l := w.write l.length ++ (Fields.replicate c l.length).layout.encode (ofList l)
  decode bytes :=
    ((Fields.replicate c (w.read bytes)).layout.decode (bytes.drop w.length)).map List.Vector.toList
  size_dynamic _ := rfl
  length_encode h := by cases h
  decode_encode l rest hvalid hbound := by
    rw [List.length_append] at hbound
    rw [List.append_assoc, w.read_write _ _ hvalid.2, drop_append_eq (w.length_write _).symm,
      Layout.decode_encode _ _ _ hvalid.1 (by omega)]
    rfl

/-- A string of symbols behind its length, filled up to whole words. -/
def symbols (w : WordFormat β) (zero : β) : Layout w (List β) where
  dynamic := true
  size := w.length
  valid _ := True
  encode l := w.write l.length ++
    (l ++ List.replicate ((w.length - l.length % w.length) % w.length) zero)
  decode bytes :=
    let n := w.read bytes
    let l := bytes.drop w.length
    if n ≤ l.length then some (l.take n) else none
  size_dynamic _ := rfl
  length_encode h := by cases h
  decode_encode l rest hvalid hbound := by
    rw [List.length_append, List.length_append] at hbound
    dsimp only
    rw [List.append_assoc, w.read_write _ _ (by omega), drop_append_eq (w.length_write _).symm,
      List.append_assoc, if_pos (by simp), List.take_left' rfl]

def single (c : Layout w A) : Layout w A :=
  ((Fields.cons c Fields.nil).map (fun a => (a, ())) Prod.fst fun _ => rfl).layout

lemma decode_single (c : Layout w A) {a : A} (hvalid : c.valid a)
    (hbound : (c.single.encode a).length < w.bound) :
    c.single.decode (c.single.encode a) = some a := by
  have h := c.single.decode_encode a [] ⟨hvalid, trivial⟩ hbound
  rwa [List.append_nil] at h

end Layout

namespace Fields

end Fields

namespace Layout

end Layout

end HeadTail

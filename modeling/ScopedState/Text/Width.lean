/-
`Text/Width.lean` -- how many columns a text takes on a terminal.

Most characters take one column. Those of the East Asian wide and fullwidth
classes take two. Marks, characters that are ignored by default and the vowels
and finals of decomposed Hangul take none, as they are drawn into the
character before them.

A text may take fewer or more columns than its characters one by one: pictures
put together from several characters take two, a sign is made a picture by the
selector behind it or a picture a sign, and in some scripts two letters are
drawn as one. What a character takes therefore depends on what stands behind
it, and the text is counted from its end, with the context that the characters
passed so far make for the next one.
-/
import ScopedState.Text.Emoji
import ScopedState.Text.Marks
set_option autoImplicit false

namespace ScopedState.Width

/-! ## 1. Characters -/

/-- The characters of two columns: the East Asian classes wide and fullwidth,
and two free numbers that are counted with them. -/
def wide : Ranges :=
  [(0x1100, 0x115F), (0x231A, 0x231B), (0x2329, 0x232A), (0x23E9, 0x23EC), (0x23F0, 0x23F0),
   (0x23F3, 0x23F3), (0x25FD, 0x25FE), (0x2614, 0x2615), (0x2630, 0x2637), (0x2648, 0x2653),
   (0x267F, 0x267F), (0x268A, 0x268F), (0x2693, 0x2693), (0x26A1, 0x26A1), (0x26AA, 0x26AB),
   (0x26BD, 0x26BE), (0x26C4, 0x26C5), (0x26CE, 0x26CE), (0x26D4, 0x26D4), (0x26EA, 0x26EA),
   (0x26F2, 0x26F3), (0x26F5, 0x26F5), (0x26FA, 0x26FA), (0x26FD, 0x26FD), (0x2705, 0x2705),
   (0x270A, 0x270B), (0x2728, 0x2728), (0x274C, 0x274C), (0x274E, 0x274E), (0x2753, 0x2755),
   (0x2757, 0x2757), (0x2795, 0x2797), (0x27B0, 0x27B0), (0x27BF, 0x27BF), (0x2B1B, 0x2B1C),
   (0x2B50, 0x2B50), (0x2B55, 0x2B55), (0x2E80, 0x2E99), (0x2E9B, 0x2EF3), (0x2F00, 0x2FD5),
   (0x2FF0, 0x303E), (0x3041, 0x3096), (0x3099, 0x30FF), (0x3105, 0x312F), (0x3131, 0x318E),
   (0x3190, 0x31E5), (0x31EF, 0x321E), (0x3220, 0x3247), (0x3250, 0xA48C), (0xA490, 0xA4C6),
   (0xA960, 0xA97C), (0xAC00, 0xD7A3), (0xF900, 0xFAFF), (0xFE10, 0xFE19), (0xFE30, 0xFE52),
   (0xFE54, 0xFE66), (0xFE68, 0xFE6B), (0xFF01, 0xFF60), (0xFFE0, 0xFFE6), (0x16FE0, 0x16FE4),
   (0x16FF0, 0x16FF6), (0x17000, 0x18CD5), (0x18CFF, 0x18D1E), (0x18D80, 0x18DF2),
   (0x1AFF0, 0x1AFF3), (0x1AFF5, 0x1AFFB), (0x1AFFD, 0x1AFFE), (0x1B000, 0x1B122),
   (0x1B132, 0x1B132), (0x1B150, 0x1B152), (0x1B155, 0x1B155), (0x1B164, 0x1B167),
   (0x1B170, 0x1B2FB), (0x1D300, 0x1D356), (0x1D360, 0x1D376), (0x1F004, 0x1F004),
   (0x1F0CF, 0x1F0CF), (0x1F18E, 0x1F18E), (0x1F191, 0x1F19A), (0x1F1AE, 0x1F1AE),
   (0x1F200, 0x1F202), (0x1F210, 0x1F23B), (0x1F240, 0x1F248), (0x1F250, 0x1F251),
   (0x1F260, 0x1F265), (0x1F300, 0x1F320), (0x1F32D, 0x1F335), (0x1F337, 0x1F37C),
   (0x1F37E, 0x1F393), (0x1F3A0, 0x1F3CA), (0x1F3CF, 0x1F3D3), (0x1F3E0, 0x1F3F0),
   (0x1F3F4, 0x1F3F4), (0x1F3F8, 0x1F43E), (0x1F440, 0x1F440), (0x1F442, 0x1F4FC),
   (0x1F4FF, 0x1F53D), (0x1F54B, 0x1F54E), (0x1F550, 0x1F567), (0x1F57A, 0x1F57A),
   (0x1F595, 0x1F596), (0x1F5A4, 0x1F5A4), (0x1F5FB, 0x1F64F), (0x1F680, 0x1F6C5),
   (0x1F6CC, 0x1F6CC), (0x1F6D0, 0x1F6D2), (0x1F6D5, 0x1F6D8), (0x1F6DC, 0x1F6DF),
   (0x1F6EB, 0x1F6EC), (0x1F6F4, 0x1F6FC), (0x1F7DA, 0x1F7DA), (0x1F7E0, 0x1F7EB),
   (0x1F7F0, 0x1F7F0), (0x1F90C, 0x1F93A), (0x1F93C, 0x1F945), (0x1F947, 0x1F9FF),
   (0x1FA70, 0x1FA7C), (0x1FA80, 0x1FA8A), (0x1FA8E, 0x1FAC6), (0x1FAC8, 0x1FAC8),
   (0x1FACD, 0x1FADC), (0x1FADF, 0x1FAEA), (0x1FAEF, 0x1FAF8), (0x20000, 0x2FFFD),
   (0x30000, 0x3FFFD)]

/-- The class has 182878 members, and its ranges rise. -/
example : wide.size = 182878 ∧ wide.rises 0 := by decide +kernel

/-- Whether a character is drawn into another one. The first consonant of
Hangul that stands for none and the joiner of Tifinagh are drawn by
themselves; a caret, and a free number behind Hebrew marks, are not. -/
def isHidden (n : Nat) : Bool :=
  if n = 0x115F || n = 0x2D7F then false
  else if n = 0xA8FA || n = 0x5C8 then true
  else Marks.extending.holds n || Marks.ignorable.holds n || Marks.hangulTails.holds n
    || Marks.leading.holds n

/-- The columns of one character. Two Khmer letters are as wide as the letters
that they are short for. -/
def ofChar (c : Char) : Nat :=
  if c.toNat = 0x17D8 then 3
  else if c.toNat = 0x17A4 then 2
  else if isHidden c.toNat then 0
  else if wide.holds c.toNat then 2
  else 1

/-! ## 2. Letters that join -/

/-- Letters and signs that can be drawn as one with a letter in front. -/
inductive Letter where
  /-- Arabic alef, behind lam. -/
  | alef
  /-- Hebrew lamed, behind alef and a joiner. -/
  | lamed
  /-- Khmer letters that have a form below the line. -/
  | khmer
  /-- Buginese ya, behind a vowel sign and a joiner. -/
  | ya
  /-- The vowel sign in front of ya, behind its letter. -/
  | yaVowel
  /-- Tifinagh consonants. -/
  | tifinagh
  /-- The Tifinagh joiner in front of a consonant. -/
  | tifinaghJoiner
  /-- Lisu signs that end a tone. -/
  | lisuTone
  /-- Old Turkic i, behind a letter and a joiner. -/
  | orkhonI
  /-- Kirat Rai vowel sign e. -/
  | kiratE
  /-- Kirat Rai vowel sign ai. -/
  | kiratAi
  deriving DecidableEq, Repr

namespace Letter

/-- Arabic letters written as alef. -/
def alefs : Ranges :=
  [(0x622, 0x623), (0x625, 0x625), (0x627, 0x627), (0x671, 0x673), (0x675, 0x675), (0x773, 0x774),
   (0x870, 0x882)]

/-- Arabic letters written as lam. -/
def lams : Ranges :=
  [(0x644, 0x644), (0x6B5, 0x6B8), (0x76A, 0x76A), (0x8A6, 0x8A6), (0x8C7, 0x8C7)]

/-- Khmer letters that have a form below the line. -/
def khmers : Ranges :=
  [(0x1780, 0x1782), (0x1784, 0x1787), (0x1789, 0x178C), (0x178E, 0x1793), (0x1795, 0x1798),
   (0x179B, 0x179D), (0x17A0, 0x17A0), (0x17A2, 0x17A2), (0x17A7, 0x17A7), (0x17AB, 0x17AC),
   (0x17AF, 0x17AF)]

/-- Tifinagh consonants. -/
def tifinaghs : Ranges := [(0x2D31, 0x2D65), (0x2D6F, 0x2D6F)]

/-- The letter that a character is, if it can join the one in front. -/
def ofNat? (n : Nat) : Option Letter :=
  if alefs.holds n then some alef
  else if n = 0x5DC then some lamed
  else if khmers.holds n then some khmer
  else if n = 0x1A10 then some ya
  else if tifinaghs.holds n then some tifinagh
  else if n = 0xA4FC || n = 0xA4FD then some lisuTone
  else if n = 0x10C03 then some orkhonI
  else if n = 0x16D67 then some kiratE
  else if n = 0x16D68 then some kiratAi
  else none

/-- Whether ignorable marks may stand in front of a letter without parting it
from the one it joins. -/
def admitsMarks : Letter → Bool
  | alef => false
  | _ => true

/-- What the character `n` adds to the width when it stands in front of a
letter that it is drawn as one with, and the letter that both are then, if
they can join on. `joiner` tells that there is a joiner between the two. -/
def join? (n : Nat) (joiner : Bool) : Letter → Option (Int × Option Letter)
  | alef =>
    if lams.holds n then some (0, none)
    else if isHidden n && !Marks.joinBreaking.holds n then some (0, some alef)
    else none
  | lamed => if joiner && n = 0x5D0 then some (0, none) else none
  | khmer => if n = 0x17D2 then some (-1, none) else none
  | ya => if joiner && n = 0x1A17 then some (0, some yaVowel) else none
  | yaVowel => if n = 0x1A15 then some (0, none) else none
  | tifinagh =>
    if n = 0x2D7F then some (1, some tifinaghJoiner)
    else if joiner && tifinaghs.holds n then some (0, none)
    else none
  | tifinaghJoiner => if tifinaghs.holds n then some (-1, none) else none
  | lisuTone => if 0xA4F8 ≤ n && n ≤ 0xA4FB then some (0, none) else none
  | orkhonI => if joiner && n = 0x10C32 then some (0, none) else none
  | kiratE =>
    if n = 0x16D63 || n = 0x16D69 then some (0, none)
    else if n = 0x16D67 then some (0, some kiratAi)
    else if n = 0x16D68 then some (1, some kiratE)
    else none
  | kiratAi => if n = 0x16D63 then some (0, none) else none

end Letter

/-! ## 3. Pictures that join -/

/-- How many letters of flags stand together in front of a joined picture. -/
inductive Count where
  | one
  | even
  | odd
  deriving DecidableEq, Repr

/-- Characters that can be drawn as one picture with characters in front. -/
inductive Picture where
  /-- A picture. -/
  | whole
  /-- A tone of the skin. -/
  | tone
  /-- A letter of a flag. -/
  | flagLetter
  /-- Letters of flags. -/
  | flagLetters
  /-- A joiner with a picture behind it. -/
  | joiner
  /-- The frame of a key in front of a joiner. -/
  | keycap
  /-- Letters of flags in front of a joiner. -/
  | joinedFlag (count : Count)
  /-- Tags in front of a joiner, from their end: so many letters, then so many
  digits. -/
  | tags (letters digits : Nat)
  deriving DecidableEq, Repr

namespace Picture

/-- The kind of picture that a character is by itself. -/
def ofChar? (c : Char) : Option Picture :=
  if Emoji.isTone c then some tone
  else if Emoji.isFlagLetter c then some flagLetter
  else if Emoji.pictures.holds c.toNat then some whole
  else none

/-- Whether the picture hangs on a joiner, so that what joins it from the front
takes no column. -/
def hangs : Picture → Bool
  | joiner => true
  | keycap => true
  | tags _ _ => true
  | _ => false

/-- Whether a joiner may stand in front. -/
def admitsJoiner : Picture → Bool
  | whole => true
  | tone => true
  | flagLetters => true
  | joinedFlag .even => true
  | joinedFlag .odd => true
  | _ => false

/-- What the character `c` adds to the width when it stands in front of a
picture that it is drawn as one with, and the picture that both are then. -/
def join? (c : Char) (p : Picture) : Option (Int × Picture) :=
  if c = '\u200d' && p.admitsJoiner then some (0, joiner)
  else match p with
    | tone => if Emoji.tonable.holds c.toNat then some (0, whole) else none
    | flagLetter => if Emoji.isFlagLetter c then some (1, flagLetters) else none
    | flagLetters => if Emoji.isFlagLetter c then some (1, flagLetters) else none
    | joinedFlag .even => if Emoji.isFlagLetter c then some (3, joinedFlag .odd) else none
    | joinedFlag _ => if Emoji.isFlagLetter c then some (-1, joinedFlag .even) else none
    | joiner =>
      if c = '\u20e3' then some (0, keycap)
      else if c.toNat = 0xE007F then some (0, tags 0 0)
      else match ofChar? c with
        | some flagLetter => some (1, joinedFlag .one)
        | some kind => some (0, kind)
        | none => none
    | tags letters digits =>
      if 0xE0061 ≤ c.toNat && c.toNat ≤ 0xE007A then
        if digits = 0 && letters < 6 then some (0, tags (letters + 1) 0) else none
      else if 0xE0030 ≤ c.toNat && c.toNat ≤ 0xE0039 then
        if (digits = 0 && letters < 5) || (0 < digits && digits < 3) then
          some (0, tags letters (digits + 1))
        else none
      else if c.toNat = 0x1F3F4 && ((digits = 0 && 3 ≤ letters) || digits = 3) then
        some (0, whole)
      else none
    | _ => none

end Picture

/-! ## 4. Texts -/

/-- How a character is asked to be drawn by a sign behind it. -/
inductive Selector where
  /-- As a sign of the script. -/
  | sign
  /-- As a picture. -/
  | picture
  /-- As a wide quotation mark. -/
  | wide
  deriving DecidableEq, Repr

/-- The selector that a character is. -/
def Selector.ofChar? (c : Char) : Option Selector :=
  if c = '\ufe0e' then some sign
  else if c = '\ufe0f' then some picture
  else if c = '\ufe01' then some wide
  else none

/-- What there is behind a character that it may join. -/
inductive Follower where
  | nothing
  | lineFeed
  | letter (l : Letter)
  | picture (p : Picture)
  deriving DecidableEq, Repr

/-- What the width of a character depends on: what is behind it, whether there
is a joiner between, and the selector between, if there is one. -/
structure Context where
  follower : Follower := .nothing
  joiner : Bool := false
  selector : Option Selector := none
  deriving DecidableEq, Repr

namespace Context

/-- The context of a letter alone. -/
def ofLetter (l : Letter) : Context := { follower := .letter l }

/-- The context of a picture alone. -/
def ofPicture (p : Picture) : Context := { follower := .picture p }

/-- The context in front of a selector. Letters join across it, and pictures
that hang on a joiner across the one for pictures; what else is behind it is
forgotten. -/
def select (x : Context) (s : Selector) : Context :=
  match x.follower with
  | .letter _ => { x with selector := some s }
  | .picture p =>
    if s = .picture && p.hangs then { x with selector := some s } else { selector := some s }
  | _ => { selector := some s }

/-- The context once the selector did not hold. -/
def unselect (x : Context) : Context :=
  match x.selector, x.follower with
  | none, _ => x
  | some _, .letter _ => { x with selector := none }
  | some _, _ => {}

end Context

/-- Signs that are pictures by themselves and can be told to be signs. Squared
ideographs are wide in both forms. -/
def canBeSign (c : Char) : Bool :=
  Emoji.selectable.holds c.toNat && Emoji.pictures.holds c.toNat
    && !(0x1F200 ≤ c.toNat && c.toNat ≤ 0x1F2FF)

/-- The quotation marks that can be told to be wide. -/
def canBeWide (c : Char) : Bool := c = '\u2018' || c = '\u2019' || c = '\u201c' || c = '\u201d'

/-- A character that joins nothing: its columns, and the context that it makes
for the one in front of it. -/
def alone (c : Char) : Int × Context :=
  (ofChar c,
    match Selector.ofChar? c, Letter.ofNat? c.toNat, Picture.ofChar? c with
    | some s, _, _ => { selector := some s }
    | none, some l, _ => .ofLetter l
    | none, none, some p => .ofPicture p
    | none, none, none => {})

/-- A character in front of what it may join. -/
def joined (c : Char) (x : Context) : Int × Context :=
  match x.follower with
  | .letter l =>
    if l.admitsMarks && c = '\u200d' then (0, { x with joiner := true })
    else if l.admitsMarks && Marks.ligatureInner.holds c.toNat then (0, x)
    else match l.join? c.toNat x.joiner with
      | some (n, some l) => (n, .ofLetter l)
      | some (n, none) => (n, {})
      | none => alone c
  | .picture p =>
    match p.join? c with
    | some (n, p) => (n, .ofPicture p)
    | none => alone c
  | _ => alone c

/-- The columns that a character adds in front of a context, and the context
that it makes. A return in front of a line feed takes no column. -/
def step (c : Char) (x : Context) : Int × Context :=
  if x.selector = some .picture && Emoji.selectable.holds c.toNat then
    let hangs := match x.follower with
      | .picture p => p.hangs
      | _ => false
    (if hangs then 0 else 2, .ofPicture .whole)
  else
    let x := if x.selector = some .picture then x.unselect else x
    if c = '\n' then (1, { follower := .lineFeed })
    else if c = '\r' && x.follower = .lineFeed then (0, {})
    else if c.toNat ≤ 0xA0 then (1, {})
    else match Selector.ofChar? c with
      | some s => (0, x.select s)
      | none =>
        if x.selector = some .sign && canBeSign c then (1, {})
        else if x.selector = some .wide && canBeWide c then (2, {})
        else joined c x.unselect

/-- The columns and the context with one more character in front. -/
def prepend (c : Char) (behind : Int × Context) : Int × Context :=
  let (n, x) := step c behind.2
  (behind.1 + n, x)

/-- The columns of a text, with the context in front of it. -/
def measure (text : List Char) : Int × Context := text.foldr prepend (0, {})

/-- **The columns of a text.** -/
def ofText (text : List Char) : Nat := (measure text).1.toNat

end ScopedState.Width

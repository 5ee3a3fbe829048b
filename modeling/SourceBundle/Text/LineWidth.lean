import SourceBundle.Text.Emoji
import SourceBundle.Text.Width

/-!
Display width of a line. Characters that join take fewer columns together than apart, and selectors
change what comes before them. A line is therefore read from its end: of the text behind a character
only its opening and a selector in front of it bear on what the character adds.
-/

namespace SourceBundle.Text

inductive Selector where
  | absent
  | wide
  | text
  | picture
  deriving DecidableEq, Repr

/-- What a text begins with, as far as a character before it may join it. A flag tells of a joiner
in front of a letter. -/
inductive Opening where
  | plain
  | picture
  | skinTone
  | regional
  | regionals
  | joinedPicture
  | joinedKeycap
  | joinedRegional
  | joinedEvenRegionals
  | joinedOddRegionals
  | joinedTagLetters (count : Nat)
  | joinedTagDigits (count : Nat)
  | kiratRaiE
  | kiratRaiAi
  | arabicAlef
  | hebrewLamed (joined : Bool)
  | bugineseYa (joined : Bool)
  | bugineseVowelAndYa
  | tifinaghLetter (joined : Bool)
  | tifinaghJoinerAndLetter
  | lisuTone
  | orkhonI (joined : Bool)
  | khmerLetter
  deriving DecidableEq, Repr

structure Following where
  opening : Opening := .plain
  selector : Selector := .absent
  deriving DecidableEq, Repr

def partingRanges : List (Nat × Nat) :=
  [(0x605, 0x605), (0x890, 0x891), (0x8E2, 0x8E2), (0x9BE, 0x9BE), (0x9D7, 0x9D7), (0xB3E, 0xB3E),
    (0xB57, 0xB57), (0xBBE, 0xBBE), (0xBD7, 0xBD7), (0xCC0, 0xCC0), (0xCC2, 0xCC2), (0xCC7, 0xCC8),
    (0xCCA, 0xCCB), (0xCD5, 0xCD6), (0xD3E, 0xD3E), (0xD4E, 0xD4E), (0xD57, 0xD57), (0xDCF, 0xDCF),
    (0xDDF, 0xDDF), (0x1160, 0x11FF), (0x1715, 0x1715), (0x1734, 0x1734), (0x180E, 0x180E),
    (0x1B35, 0x1B35), (0x1B3B, 0x1B3B), (0x1B3D, 0x1B3D), (0x1B43, 0x1B44), (0x1BAA, 0x1BAA),
    (0x1BF2, 0x1BF3), (0x200C, 0x200D), (0x2065, 0x2069), (0x302E, 0x302F), (0x3164, 0x3164),
    (0xA8FA, 0xA8FA), (0xA953, 0xA953), (0xA9C0, 0xA9C0), (0xD7B0, 0xD7C6), (0xD7CB, 0xD7FB),
    (0xFF9E, 0xFFA0), (0xFFF0, 0xFFF8), (0x111C0, 0x111C0), (0x111C2, 0x111C3), (0x11235, 0x11235),
    (0x1133E, 0x1133E), (0x1134D, 0x1134D), (0x11357, 0x11357), (0x113B8, 0x113B8),
    (0x113C2, 0x113C2), (0x113C5, 0x113C5), (0x113C7, 0x113C9), (0x113CF, 0x113CF),
    (0x113D1, 0x113D1), (0x114B0, 0x114B0), (0x114BD, 0x114BD), (0x115AF, 0x115AF),
    (0x116B6, 0x116B6), (0x11930, 0x11930), (0x1193D, 0x1193D), (0x1193F, 0x1193F),
    (0x11941, 0x11941), (0x11A3A, 0x11A3A), (0x11A84, 0x11A89), (0x11D46, 0x11D46),
    (0x11F02, 0x11F02), (0x11F41, 0x11F41), (0x16FF0, 0x16FF1), (0x1D165, 0x1D166),
    (0x1D16D, 0x1D172), (0xE0000, 0xE0000), (0xE0002, 0xE001F), (0xE0080, 0xE00FF),
    (0xE01F0, 0xE0FFF)]

def isTransparent (c : Char) : Bool := charWidth c = 0 && !inRanges partingRanges c.toNat

def isArabicLam (c : Char) : Bool :=
  inRanges [(0x644, 0x644), (0x6B5, 0x6B8), (0x76A, 0x76A), (0x8A6, 0x8A6), (0x8C7, 0x8C7)] c.toNat

def isArabicAlef (c : Char) : Bool :=
  inRanges [(0x622, 0x623), (0x625, 0x625), (0x627, 0x627), (0x671, 0x673), (0x675, 0x675),
    (0x773, 0x774), (0x870, 0x882)] c.toNat

def isKhmerLetter (c : Char) : Bool :=
  inRanges [(0x1780, 0x1782), (0x1784, 0x1787), (0x1789, 0x178C), (0x178E, 0x1793),
    (0x1795, 0x1798), (0x179B, 0x179D), (0x17A0, 0x17A0), (0x17A2, 0x17A2), (0x17A7, 0x17A7),
    (0x17AB, 0x17AC), (0x17AF, 0x17AF)] c.toNat

def isTifinaghLetter (c : Char) : Bool :=
  inRanges [(0x2D31, 0x2D65), (0x2D6F, 0x2D6F)] c.toNat

def isIgnorableMark (c : Char) : Bool :=
  inRanges [(0x34F, 0x34F), (0x17B4, 0x17B5), (0x180B, 0x180D), (0x180F, 0x180F),
    (0xFE00, 0xFE0F), (0xE0100, 0xE01EF)] c.toNat

def isQuotationMark (c : Char) : Bool := c == '‘' || c == '’' || c == '“' || c == '”'

def joiner : Char := '\u200D'

namespace Opening

/-- A letter of a ligature, which a selector in front of it does not hide. -/
def isLetter : Opening → Bool
  | arabicAlef => true
  | hebrewLamed _ => true
  | bugineseYa _ => true
  | bugineseVowelAndYa => true
  | tifinaghLetter _ => true
  | tifinaghJoinerAndLetter => true
  | lisuTone => true
  | orkhonI _ => true
  | khmerLetter => true
  | _ => false

def isOpen (o : Opening) : Bool := o.isLetter && o != arabicAlef

def joined : Opening → Opening
  | hebrewLamed _ => hebrewLamed true
  | bugineseYa _ => bugineseYa true
  | tifinaghLetter _ => tifinaghLetter true
  | orkhonI _ => orkhonI true
  | o => o

def awaitsPicture (o : Opening) : Bool := o == joinedPicture || o == joinedKeycap

def ofChar (c : Char) : Opening :=
  if isArabicAlef c then arabicAlef
  else if c == 'ל' then hebrewLamed false
  else if isKhmerLetter c then khmerLetter
  else if c == '\u1A10' then bugineseYa false
  else if isTifinaghLetter c then tifinaghLetter false
  else if c == '\uA4FC' || c == '\uA4FD' then lisuTone
  else if c.toNat == 0x10C03 then orkhonI false
  else if c.toNat == 0x16D67 then kiratRaiE
  else if c.toNat == 0x16D68 then kiratRaiAi
  else if isRegional c then regional
  else if isSkinTone c then skinTone
  else if isPicture c then picture
  else plain

def joinLetter? (c : Char) : Opening → Option (Int × Opening)
  | arabicAlef =>
      if isArabicLam c then some (0, plain)
      else if isTransparent c then some (0, arabicAlef)
      else none
  | hebrewLamed true => if c == 'א' then some (0, plain) else none
  | khmerLetter => if c == '\u17D2' then some (-1, plain) else none
  | bugineseYa true => if c == '\u1A17' then some (0, bugineseVowelAndYa) else none
  | bugineseVowelAndYa => if c == '\u1A15' then some (0, plain) else none
  | tifinaghLetter joined =>
      if c == '\u2D7F' then some (1, tifinaghJoinerAndLetter)
      else if joined && isTifinaghLetter c then some (0, plain)
      else none
  | tifinaghJoinerAndLetter => if isTifinaghLetter c then some (-1, plain) else none
  | lisuTone => if '\uA4F8' ≤ c && c ≤ '\uA4FB' then some (0, plain) else none
  | orkhonI true => if c.toNat == 0x10C32 then some (0, plain) else none
  | kiratRaiE =>
      if c.toNat == 0x16D63 || c.toNat == 0x16D69 then some (0, plain)
      else if c.toNat == 0x16D67 then some (0, kiratRaiAi)
      else if c.toNat == 0x16D68 then some (1, kiratRaiE)
      else none
  | kiratRaiAi => if c.toNat == 0x16D63 then some (0, plain) else none
  | _ => none

def isTaggedFlag (c : Char) : Bool := c.toNat == 0x1F3F4

/-- What a character adds in front of a joined picture, of which only the first takes columns. -/
def joinPicture? (c : Char) : Opening → Option (Int × Opening)
  | joinedPicture =>
      if c == '\u20E3' then some (0, joinedKeycap)
      else if isRegional c then some (1, joinedRegional)
      else if isSkinTone c then some (0, skinTone)
      else if c.toNat == 0xE007F then some (0, joinedTagLetters 0)
      else if isPicture c then some (0, picture)
      else none
  | joinedRegional => if isRegional c then some (-1, joinedEvenRegionals) else none
  | joinedOddRegionals => if isRegional c then some (-1, joinedEvenRegionals) else none
  | joinedEvenRegionals => if isRegional c then some (3, joinedOddRegionals) else none
  | joinedTagLetters count =>
      if isTagLetter c && count < 6 then some (0, joinedTagLetters (count + 1))
      else if isTagDigit c && count < 5 then some (0, joinedTagDigits 1)
      else if isTaggedFlag c && 3 ≤ count then some (0, picture)
      else none
  | joinedTagDigits count =>
      if isTagDigit c && count < 3 then some (0, joinedTagDigits (count + 1))
      else if isTaggedFlag c && count = 3 then some (0, picture)
      else none
  | skinTone => if isTonable c then some (0, picture) else none
  | regional => if isRegional c then some (1, regionals) else none
  | regionals => if isRegional c then some (1, regionals) else none
  | _ => none

def takesJoiner : Opening → Bool
  | picture => true
  | skinTone => true
  | regionals => true
  | joinedEvenRegionals => true
  | joinedOddRegionals => true
  | _ => false

def before (c : Char) (o : Opening) : Int × Opening :=
  if o.isOpen && c == joiner then (0, o.joined)
  else if o.isOpen && isIgnorableMark c then (0, o)
  else if o.takesJoiner && c == joiner then (0, joinedPicture)
  else ((joinLetter? c o).or (joinPicture? c o)).getD (charWidth c, ofChar c)

end Opening

namespace Following

def before (c : Char) (f : Following) : Int × Following :=
  if f.selector = .picture && isSelectable c then
    (if f.opening.awaitsPicture then 0 else 2, { opening := .picture })
  else
    let o := if f.selector = .absent || f.opening.isLetter then f.opening else .plain
    let letter := if o.isLetter then o else .plain
    if c == '\uFE0F' then
      (0, { opening := if o.awaitsPicture then o else letter, selector := .picture })
    else if c == '\uFE0E' then (0, { opening := letter, selector := .text })
    else if c == '\uFE01' then (0, { opening := letter, selector := .wide })
    else if f.selector = .text && isTextable c then (1, {})
    else if f.selector = .wide && isQuotationMark c then (2, {})
    else
      match Opening.before c o with
      | (columns, opening) => (columns, { opening })

end Following

def measure : List Char → Int × Following
  | [] => (0, {})
  | c :: s =>
      let (columns, f) := measure s
      let (more, f) := f.before c
      (columns + more, f)

def width (line : String) : Nat := (measure line.toList).1.toNat

end SourceBundle.Text

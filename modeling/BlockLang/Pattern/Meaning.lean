import BlockLang.Pattern.Expr
import BlockLang.Pattern.Reader
import BlockLang.Pattern.Size
import BlockLang.Text.CaseFold
import BlockLang.Text.Word

/-! # The meaning of patterns

Flags decide what characters, classes and assertions mean. A flag holds from where it is set to
the end of its group, through all further alternatives. Without Unicode a pattern must still not
take characters apart, so classes outside ASCII have no meaning then.
-/

namespace BlockLang.Pattern

/-- The flags that change what a pattern matches. -/
structure Options where
  ignoreCase : Bool := false
  multiLine : Bool := false
  dotAll : Bool := false
  unicode : Bool := true
  carriageReturn : Bool := false

namespace Options

def set (o : Options) (flag : Flag) (on : Bool) : Options :=
  match flag with
  | .ignoreCase => { o with ignoreCase := on }
  | .multiLine => { o with multiLine := on }
  | .dotAll => { o with dotAll := on }
  | .unicode => { o with unicode := on }
  | .carriageReturn => { o with carriageReturn := on }
  | .swapGreed | .verbose => o

def setAll (o : Options) (flags : Flags) : Options :=
  flags.foldl (fun o (flag, on) => o.set flag on) o

def wordChars (o : Options) : CharSet :=
  if o.unicode then Text.wordChars else ⟨[(0x30, 0x39), (0x41, 0x5A), (0x5F, 0x5F), (0x61, 0x7A)]⟩

def blanks (o : Options) : CharSet :=
  if o.unicode then
    ⟨[(0x09, 0x0D), (0x20, 0x20), (0x85, 0x85), (0xA0, 0xA0), (0x1680, 0x1680), (0x2000, 0x200A),
      (0x2028, 0x2029), (0x202F, 0x202F), (0x205F, 0x205F), (0x3000, 0x3000)]⟩
  else ⟨[(0x09, 0x0D), (0x20, 0x20)]⟩

def digits (o : Options) : CharSet := if o.unicode then Text.digits else ⟨[(0x30, 0x39)]⟩

/-- The characters outside a set; without Unicode, characters are single bytes,
and a complement may hold bytes that are part of characters. -/
def complement (o : Options) (s : CharSet) : CharSet :=
  if o.unicode then s.complement else s.complement.inter ⟨[(0, 0xFF)]⟩

def negateIf (o : Options) (negated : Bool) (s : CharSet) : CharSet :=
  if negated then o.complement s else s

def fold (o : Options) (s : CharSet) : CharSet :=
  if !o.ignoreCase then s
  else if o.unicode then Text.ignoringCase s
  else Text.ignoringAsciiCase s

def shorthand (o : Options) (kind : Shorthand) (negated : Bool) : CharSet :=
  o.negateIf negated <| match kind with
    | .digit => o.digits
    | .space => o.blanks
    | .word => o.wordChars

/-- The expression of a set; without Unicode the set must not go beyond ASCII,
as it could match a part of a character. -/
def expr? (o : Options) (s : CharSet) : Option Expr :=
  if o.unicode || s.ranges.all (·.2 < 0x80) then some (.set s) else none

def dot (o : Options) : CharSet :=
  if o.dotAll then o.complement .empty
  else if o.carriageReturn then o.complement ⟨[(0x0A, 0x0A), (0x0D, 0x0D)]⟩
  else o.complement ⟨[(0x0A, 0x0A)]⟩

def look (o : Options) : Assertion → Look
  | .lineStart =>
    if !o.multiLine then .textStart else if o.carriageReturn then .anyLineStart else .lineStart
  | .lineEnd =>
    if !o.multiLine then .textEnd else if o.carriageReturn then .anyLineEnd else .lineEnd
  | .textStart => .textStart
  | .textEnd => .textEnd
  | .wordBoundary => .wordBoundary o.wordChars
  | .notWordBoundary => .notWordBoundary o.wordChars
  | .wordStart => .wordStart o.wordChars
  | .wordEnd => .wordEnd o.wordChars
  | .wordStartHalf => .wordStartHalf o.wordChars
  | .wordEndHalf => .wordEndHalf o.wordChars

end Options

def Named.chars : Named → CharSet
  | .alnum => ⟨[(0x30, 0x39), (0x41, 0x5A), (0x61, 0x7A)]⟩
  | .alpha => ⟨[(0x41, 0x5A), (0x61, 0x7A)]⟩
  | .ascii => ⟨[(0x00, 0x7F)]⟩
  | .blank => ⟨[(0x09, 0x09), (0x20, 0x20)]⟩
  | .cntrl => ⟨[(0x00, 0x1F), (0x7F, 0x7F)]⟩
  | .digit => ⟨[(0x30, 0x39)]⟩
  | .graph => ⟨[(0x21, 0x7E)]⟩
  | .lower => ⟨[(0x61, 0x7A)]⟩
  | .print => ⟨[(0x20, 0x7E)]⟩
  | .punct => ⟨[(0x21, 0x2F), (0x3A, 0x40), (0x5B, 0x60), (0x7B, 0x7E)]⟩
  | .space => ⟨[(0x09, 0x0D), (0x20, 0x20)]⟩
  | .upper => ⟨[(0x41, 0x5A)]⟩
  | .word => ⟨[(0x30, 0x39), (0x41, 0x5A), (0x5F, 0x5F), (0x61, 0x7A)]⟩
  | .xdigit => ⟨[(0x30, 0x39), (0x41, 0x46), (0x61, 0x66)]⟩

def SetOperation.apply (left right : CharSet) : SetOperation → CharSet
  | .intersection => left.inter right
  | .difference => left.diff right
  | .symmetricDifference => left.symmDiff right

mutual

/-- The characters of a member of a class. -/
def ClassItem.chars (o : Options) : ClassItem → CharSet
  | .char c => .singleton c.toNat
  | .range first last => ⟨[(first.toNat, last.toNat)]⟩
  | .shorthand kind negated => o.shorthand kind negated
  | .named kind negated => o.negateIf negated (o.fold kind.chars)
  | .nested negated set => o.negateIf negated (o.fold (set.chars o))

/-- The characters of what stands between brackets. -/
def ClassSet.chars (o : Options) : ClassSet → CharSet
  | .union items => .ofRanges (ClassItem.allChars o items)
  | .operation kind left right => kind.apply (o.fold (left.chars o)) (o.fold (right.chars o))

def ClassItem.allChars (o : Options) : List ClassItem → List (Nat × Nat)
  | [] => []
  | item :: rest => (item.chars o).ranges ++ ClassItem.allChars o rest

end

def charExpr (o : Options) (c : Char) : Expr := .set (o.fold (.singleton c.toNat))

mutual

/-- The expression of a pattern under some options, and the options behind
it. -/
def Syntax.expr? (o : Options) : Syntax → Option (Expr × Options)
  | .empty => some (.empty, o)
  | .char c => some (charExpr o c, o)
  | .byte c => if o.unicode || c.toNat < 0x80 then some (charExpr o c, o) else none
  | .dot => (o.expr? o.dot).map (·, o)
  | .assertion kind => some (.look (o.look kind), o)
  | .shorthand kind negated => (o.expr? (o.shorthand kind negated)).map (·, o)
  | .bracketed negated set => (o.expr? (o.negateIf negated (o.fold (set.chars o)))).map (·, o)
  | .repeated atLeast atMost body => do
    let (e, o) ← body.expr? o
    return (.repeated atLeast atMost e, o)
  | .group (.flagged fs) body => do
    let (e, _) ← body.expr? (o.setAll fs)
    return (e, o)
  | .group _ body => do
    let (e, _) ← body.expr? o
    return (.group e, o)
  | .flags fs => some (.empty, o.setAll fs)
  | .sequence items => Syntax.sequence? o items
  | .alternatives items => Syntax.alternatives? o items

def Syntax.sequence? (o : Options) : List Syntax → Option (Expr × Options)
  | [] => some (.empty, o)
  | [item] => item.expr? o
  | item :: rest => do
    let (first, o) ← item.expr? o
    let (second, o) ← Syntax.sequence? o rest
    return (.seq first second, o)

def Syntax.alternatives? (o : Options) : List Syntax → Option (Expr × Options)
  | [] => some (.set .empty, o)
  | [item] => item.expr? o
  | item :: rest => do
    let (left, o) ← item.expr? o
    let (right, o) ← Syntax.alternatives? o rest
    return (.alt left right, o)

end

/-- The expression that a text stands for as a pattern, if it is one and not too
large. -/
def Expr.read? (text : String) : Option Expr := do
  let read ← Syntax.read? text
  let (e, _) ← read.expr? {}
  if e.fits then return e else none

end BlockLang.Pattern

/-!
# The case table

The letters that have a case, as ranges in the order of their scalar values.
A range is wholly upper case, wholly lower case, or a run of pairs, an upper
case letter followed by its lower case form.  So no scalar is both, whatever
the rows say.

The rows are the properties `Uppercase` and `Lowercase` and the simple lower
case mapping of version 17 of the Unicode character database.  The one upper
case letter whose lower case form is two scalars, `İ`, is in the table with
itself as its form, and `Text.lowered` states the exception.
-/

namespace TypeExport.Text

/-- How the letters of one range are cased. -/
inductive CaseClass where
  /-- Every scalar is upper case, its lower case form lies `shift` further on. -/
  | upper (shift : Int)
  | lower
  /-- Upper case letters, each followed by its lower case form. -/
  | pairs
  deriving DecidableEq, Repr

/-- A range of scalar values with one casing, both ends included. -/
structure CaseRange where
  /-- The first scalar value. -/
  first : Nat
  /-- The last scalar value. -/
  last : Nat
  casing : CaseClass
  deriving DecidableEq, Repr

/-- Every range of cased letters, in ascending order. -/
def caseTable : List CaseRange :=
  [
   ⟨0x41, 0x5A, .upper 32⟩, ⟨0x61, 0x7A, .lower⟩, ⟨0xAA, 0xAA, .lower⟩, ⟨0xB5, 0xB5, .lower⟩,
   ⟨0xBA, 0xBA, .lower⟩, ⟨0xC0, 0xD6, .upper 32⟩, ⟨0xD8, 0xDE, .upper 32⟩, ⟨0xDF, 0xF6, .lower⟩,
   ⟨0xF8, 0xFF, .lower⟩, ⟨0x100, 0x12F, .pairs⟩, ⟨0x130, 0x130, .upper 0⟩, ⟨0x131, 0x131, .lower⟩,
   ⟨0x132, 0x137, .pairs⟩, ⟨0x138, 0x138, .lower⟩, ⟨0x139, 0x148, .pairs⟩, ⟨0x149, 0x149, .lower⟩,
   ⟨0x14A, 0x177, .pairs⟩, ⟨0x178, 0x178, .upper (-121)⟩, ⟨0x179, 0x17E, .pairs⟩,
   ⟨0x17F, 0x180, .lower⟩, ⟨0x181, 0x181, .upper 210⟩, ⟨0x182, 0x185, .pairs⟩,
   ⟨0x186, 0x186, .upper 206⟩, ⟨0x187, 0x188, .pairs⟩, ⟨0x189, 0x18A, .upper 205⟩,
   ⟨0x18B, 0x18C, .pairs⟩, ⟨0x18D, 0x18D, .lower⟩, ⟨0x18E, 0x18E, .upper 79⟩,
   ⟨0x18F, 0x18F, .upper 202⟩, ⟨0x190, 0x190, .upper 203⟩, ⟨0x191, 0x192, .pairs⟩,
   ⟨0x193, 0x193, .upper 205⟩, ⟨0x194, 0x194, .upper 207⟩, ⟨0x195, 0x195, .lower⟩,
   ⟨0x196, 0x196, .upper 211⟩, ⟨0x197, 0x197, .upper 209⟩, ⟨0x198, 0x199, .pairs⟩,
   ⟨0x19A, 0x19B, .lower⟩, ⟨0x19C, 0x19C, .upper 211⟩, ⟨0x19D, 0x19D, .upper 213⟩,
   ⟨0x19E, 0x19E, .lower⟩, ⟨0x19F, 0x19F, .upper 214⟩, ⟨0x1A0, 0x1A5, .pairs⟩,
   ⟨0x1A6, 0x1A6, .upper 218⟩, ⟨0x1A7, 0x1A8, .pairs⟩, ⟨0x1A9, 0x1A9, .upper 218⟩,
   ⟨0x1AA, 0x1AB, .lower⟩, ⟨0x1AC, 0x1AD, .pairs⟩, ⟨0x1AE, 0x1AE, .upper 218⟩,
   ⟨0x1AF, 0x1B0, .pairs⟩, ⟨0x1B1, 0x1B2, .upper 217⟩, ⟨0x1B3, 0x1B6, .pairs⟩,
   ⟨0x1B7, 0x1B7, .upper 219⟩, ⟨0x1B8, 0x1B9, .pairs⟩, ⟨0x1BA, 0x1BA, .lower⟩,
   ⟨0x1BC, 0x1BD, .pairs⟩, ⟨0x1BE, 0x1BF, .lower⟩, ⟨0x1C4, 0x1C4, .upper 2⟩, ⟨0x1C6, 0x1C6, .lower⟩,
   ⟨0x1C7, 0x1C7, .upper 2⟩, ⟨0x1C9, 0x1C9, .lower⟩, ⟨0x1CA, 0x1CA, .upper 2⟩,
   ⟨0x1CC, 0x1CC, .lower⟩, ⟨0x1CD, 0x1DC, .pairs⟩, ⟨0x1DD, 0x1DD, .lower⟩, ⟨0x1DE, 0x1EF, .pairs⟩,
   ⟨0x1F0, 0x1F0, .lower⟩, ⟨0x1F1, 0x1F1, .upper 2⟩, ⟨0x1F3, 0x1F3, .lower⟩, ⟨0x1F4, 0x1F5, .pairs⟩,
   ⟨0x1F6, 0x1F6, .upper (-97)⟩, ⟨0x1F7, 0x1F7, .upper (-56)⟩, ⟨0x1F8, 0x21F, .pairs⟩,
   ⟨0x220, 0x220, .upper (-130)⟩, ⟨0x221, 0x221, .lower⟩, ⟨0x222, 0x233, .pairs⟩,
   ⟨0x234, 0x239, .lower⟩, ⟨0x23A, 0x23A, .upper 10795⟩, ⟨0x23B, 0x23C, .pairs⟩,
   ⟨0x23D, 0x23D, .upper (-163)⟩, ⟨0x23E, 0x23E, .upper 10792⟩, ⟨0x23F, 0x240, .lower⟩,
   ⟨0x241, 0x242, .pairs⟩, ⟨0x243, 0x243, .upper (-195)⟩, ⟨0x244, 0x244, .upper 69⟩,
   ⟨0x245, 0x245, .upper 71⟩, ⟨0x246, 0x24F, .pairs⟩, ⟨0x250, 0x293, .lower⟩,
   ⟨0x296, 0x2B8, .lower⟩, ⟨0x2C0, 0x2C1, .lower⟩, ⟨0x2E0, 0x2E4, .lower⟩, ⟨0x345, 0x345, .lower⟩,
   ⟨0x370, 0x373, .pairs⟩, ⟨0x376, 0x377, .pairs⟩, ⟨0x37A, 0x37D, .lower⟩,
   ⟨0x37F, 0x37F, .upper 116⟩, ⟨0x386, 0x386, .upper 38⟩, ⟨0x388, 0x38A, .upper 37⟩,
   ⟨0x38C, 0x38C, .upper 64⟩, ⟨0x38E, 0x38F, .upper 63⟩, ⟨0x390, 0x390, .lower⟩,
   ⟨0x391, 0x3A1, .upper 32⟩, ⟨0x3A3, 0x3AB, .upper 32⟩, ⟨0x3AC, 0x3CE, .lower⟩,
   ⟨0x3CF, 0x3CF, .upper 8⟩, ⟨0x3D0, 0x3D1, .lower⟩, ⟨0x3D2, 0x3D4, .upper 0⟩,
   ⟨0x3D5, 0x3D7, .lower⟩, ⟨0x3D8, 0x3EF, .pairs⟩, ⟨0x3F0, 0x3F3, .lower⟩,
   ⟨0x3F4, 0x3F4, .upper (-60)⟩, ⟨0x3F5, 0x3F5, .lower⟩, ⟨0x3F7, 0x3F8, .pairs⟩,
   ⟨0x3F9, 0x3F9, .upper (-7)⟩, ⟨0x3FA, 0x3FB, .pairs⟩, ⟨0x3FC, 0x3FC, .lower⟩,
   ⟨0x3FD, 0x3FF, .upper (-130)⟩, ⟨0x400, 0x40F, .upper 80⟩, ⟨0x410, 0x42F, .upper 32⟩,
   ⟨0x430, 0x45F, .lower⟩, ⟨0x460, 0x481, .pairs⟩, ⟨0x48A, 0x4BF, .pairs⟩,
   ⟨0x4C0, 0x4C0, .upper 15⟩, ⟨0x4C1, 0x4CE, .pairs⟩, ⟨0x4CF, 0x4CF, .lower⟩,
   ⟨0x4D0, 0x52F, .pairs⟩, ⟨0x531, 0x556, .upper 48⟩, ⟨0x560, 0x588, .lower⟩,
   ⟨0x10A0, 0x10C5, .upper 7264⟩, ⟨0x10C7, 0x10C7, .upper 7264⟩, ⟨0x10CD, 0x10CD, .upper 7264⟩,
   ⟨0x10D0, 0x10FA, .lower⟩, ⟨0x10FC, 0x10FF, .lower⟩, ⟨0x13A0, 0x13EF, .upper 38864⟩,
   ⟨0x13F0, 0x13F5, .upper 8⟩, ⟨0x13F8, 0x13FD, .lower⟩, ⟨0x1C80, 0x1C88, .lower⟩,
   ⟨0x1C89, 0x1C8A, .pairs⟩, ⟨0x1C90, 0x1CBA, .upper (-3008)⟩, ⟨0x1CBD, 0x1CBF, .upper (-3008)⟩,
   ⟨0x1D00, 0x1DBF, .lower⟩, ⟨0x1E00, 0x1E95, .pairs⟩, ⟨0x1E96, 0x1E9D, .lower⟩,
   ⟨0x1E9E, 0x1E9E, .upper (-7615)⟩, ⟨0x1E9F, 0x1E9F, .lower⟩, ⟨0x1EA0, 0x1EFF, .pairs⟩,
   ⟨0x1F00, 0x1F07, .lower⟩, ⟨0x1F08, 0x1F0F, .upper (-8)⟩, ⟨0x1F10, 0x1F15, .lower⟩,
   ⟨0x1F18, 0x1F1D, .upper (-8)⟩, ⟨0x1F20, 0x1F27, .lower⟩, ⟨0x1F28, 0x1F2F, .upper (-8)⟩,
   ⟨0x1F30, 0x1F37, .lower⟩, ⟨0x1F38, 0x1F3F, .upper (-8)⟩, ⟨0x1F40, 0x1F45, .lower⟩,
   ⟨0x1F48, 0x1F4D, .upper (-8)⟩, ⟨0x1F50, 0x1F57, .lower⟩, ⟨0x1F59, 0x1F59, .upper (-8)⟩,
   ⟨0x1F5B, 0x1F5B, .upper (-8)⟩, ⟨0x1F5D, 0x1F5D, .upper (-8)⟩, ⟨0x1F5F, 0x1F5F, .upper (-8)⟩,
   ⟨0x1F60, 0x1F67, .lower⟩, ⟨0x1F68, 0x1F6F, .upper (-8)⟩, ⟨0x1F70, 0x1F7D, .lower⟩,
   ⟨0x1F80, 0x1F87, .lower⟩, ⟨0x1F90, 0x1F97, .lower⟩, ⟨0x1FA0, 0x1FA7, .lower⟩,
   ⟨0x1FB0, 0x1FB4, .lower⟩, ⟨0x1FB6, 0x1FB7, .lower⟩, ⟨0x1FB8, 0x1FB9, .upper (-8)⟩,
   ⟨0x1FBA, 0x1FBB, .upper (-74)⟩, ⟨0x1FBE, 0x1FBE, .lower⟩, ⟨0x1FC2, 0x1FC4, .lower⟩,
   ⟨0x1FC6, 0x1FC7, .lower⟩, ⟨0x1FC8, 0x1FCB, .upper (-86)⟩, ⟨0x1FD0, 0x1FD3, .lower⟩,
   ⟨0x1FD6, 0x1FD7, .lower⟩, ⟨0x1FD8, 0x1FD9, .upper (-8)⟩, ⟨0x1FDA, 0x1FDB, .upper (-100)⟩,
   ⟨0x1FE0, 0x1FE7, .lower⟩, ⟨0x1FE8, 0x1FE9, .upper (-8)⟩, ⟨0x1FEA, 0x1FEB, .upper (-112)⟩,
   ⟨0x1FEC, 0x1FEC, .upper (-7)⟩, ⟨0x1FF2, 0x1FF4, .lower⟩, ⟨0x1FF6, 0x1FF7, .lower⟩,
   ⟨0x1FF8, 0x1FF9, .upper (-128)⟩, ⟨0x1FFA, 0x1FFB, .upper (-126)⟩, ⟨0x2071, 0x2071, .lower⟩,
   ⟨0x207F, 0x207F, .lower⟩, ⟨0x2090, 0x209C, .lower⟩, ⟨0x2102, 0x2102, .upper 0⟩,
   ⟨0x2107, 0x2107, .upper 0⟩, ⟨0x210A, 0x210A, .lower⟩, ⟨0x210B, 0x210D, .upper 0⟩,
   ⟨0x210E, 0x210F, .lower⟩, ⟨0x2110, 0x2112, .upper 0⟩, ⟨0x2113, 0x2113, .lower⟩,
   ⟨0x2115, 0x2115, .upper 0⟩, ⟨0x2119, 0x211D, .upper 0⟩, ⟨0x2124, 0x2124, .upper 0⟩,
   ⟨0x2126, 0x2126, .upper (-7517)⟩, ⟨0x2128, 0x2128, .upper 0⟩, ⟨0x212A, 0x212A, .upper (-8383)⟩,
   ⟨0x212B, 0x212B, .upper (-8262)⟩, ⟨0x212C, 0x212D, .upper 0⟩, ⟨0x212F, 0x212F, .lower⟩,
   ⟨0x2130, 0x2131, .upper 0⟩, ⟨0x2132, 0x2132, .upper 28⟩, ⟨0x2133, 0x2133, .upper 0⟩,
   ⟨0x2134, 0x2134, .lower⟩, ⟨0x2139, 0x2139, .lower⟩, ⟨0x213C, 0x213D, .lower⟩,
   ⟨0x213E, 0x213F, .upper 0⟩, ⟨0x2145, 0x2145, .upper 0⟩, ⟨0x2146, 0x2149, .lower⟩,
   ⟨0x214E, 0x214E, .lower⟩, ⟨0x2160, 0x216F, .upper 16⟩, ⟨0x2170, 0x217F, .lower⟩,
   ⟨0x2183, 0x2184, .pairs⟩, ⟨0x24B6, 0x24CF, .upper 26⟩, ⟨0x24D0, 0x24E9, .lower⟩,
   ⟨0x2C00, 0x2C2F, .upper 48⟩, ⟨0x2C30, 0x2C5F, .lower⟩, ⟨0x2C60, 0x2C61, .pairs⟩,
   ⟨0x2C62, 0x2C62, .upper (-10743)⟩, ⟨0x2C63, 0x2C63, .upper (-3814)⟩,
   ⟨0x2C64, 0x2C64, .upper (-10727)⟩, ⟨0x2C65, 0x2C66, .lower⟩, ⟨0x2C67, 0x2C6C, .pairs⟩,
   ⟨0x2C6D, 0x2C6D, .upper (-10780)⟩, ⟨0x2C6E, 0x2C6E, .upper (-10749)⟩,
   ⟨0x2C6F, 0x2C6F, .upper (-10783)⟩, ⟨0x2C70, 0x2C70, .upper (-10782)⟩, ⟨0x2C71, 0x2C71, .lower⟩,
   ⟨0x2C72, 0x2C73, .pairs⟩, ⟨0x2C74, 0x2C74, .lower⟩, ⟨0x2C75, 0x2C76, .pairs⟩,
   ⟨0x2C77, 0x2C7D, .lower⟩, ⟨0x2C7E, 0x2C7F, .upper (-10815)⟩, ⟨0x2C80, 0x2CE3, .pairs⟩,
   ⟨0x2CE4, 0x2CE4, .lower⟩, ⟨0x2CEB, 0x2CEE, .pairs⟩, ⟨0x2CF2, 0x2CF3, .pairs⟩,
   ⟨0x2D00, 0x2D25, .lower⟩, ⟨0x2D27, 0x2D27, .lower⟩, ⟨0x2D2D, 0x2D2D, .lower⟩,
   ⟨0xA640, 0xA66D, .pairs⟩, ⟨0xA680, 0xA69B, .pairs⟩, ⟨0xA69C, 0xA69D, .lower⟩,
   ⟨0xA722, 0xA72F, .pairs⟩, ⟨0xA730, 0xA731, .lower⟩, ⟨0xA732, 0xA76F, .pairs⟩,
   ⟨0xA770, 0xA778, .lower⟩, ⟨0xA779, 0xA77C, .pairs⟩, ⟨0xA77D, 0xA77D, .upper (-35332)⟩,
   ⟨0xA77E, 0xA787, .pairs⟩, ⟨0xA78B, 0xA78C, .pairs⟩, ⟨0xA78D, 0xA78D, .upper (-42280)⟩,
   ⟨0xA78E, 0xA78E, .lower⟩, ⟨0xA790, 0xA793, .pairs⟩, ⟨0xA794, 0xA795, .lower⟩,
   ⟨0xA796, 0xA7A9, .pairs⟩, ⟨0xA7AA, 0xA7AA, .upper (-42308)⟩, ⟨0xA7AB, 0xA7AB, .upper (-42319)⟩,
   ⟨0xA7AC, 0xA7AC, .upper (-42315)⟩, ⟨0xA7AD, 0xA7AD, .upper (-42305)⟩,
   ⟨0xA7AE, 0xA7AE, .upper (-42308)⟩, ⟨0xA7AF, 0xA7AF, .lower⟩, ⟨0xA7B0, 0xA7B0, .upper (-42258)⟩,
   ⟨0xA7B1, 0xA7B1, .upper (-42282)⟩, ⟨0xA7B2, 0xA7B2, .upper (-42261)⟩,
   ⟨0xA7B3, 0xA7B3, .upper 928⟩, ⟨0xA7B4, 0xA7C3, .pairs⟩, ⟨0xA7C4, 0xA7C4, .upper (-48)⟩,
   ⟨0xA7C5, 0xA7C5, .upper (-42307)⟩, ⟨0xA7C6, 0xA7C6, .upper (-35384)⟩, ⟨0xA7C7, 0xA7CA, .pairs⟩,
   ⟨0xA7CB, 0xA7CB, .upper (-42343)⟩, ⟨0xA7CC, 0xA7DB, .pairs⟩, ⟨0xA7DC, 0xA7DC, .upper (-42561)⟩,
   ⟨0xA7F1, 0xA7F4, .lower⟩, ⟨0xA7F5, 0xA7F6, .pairs⟩, ⟨0xA7F8, 0xA7FA, .lower⟩,
   ⟨0xAB30, 0xAB5A, .lower⟩, ⟨0xAB5C, 0xAB69, .lower⟩, ⟨0xAB70, 0xABBF, .lower⟩,
   ⟨0xFB00, 0xFB06, .lower⟩, ⟨0xFB13, 0xFB17, .lower⟩, ⟨0xFF21, 0xFF3A, .upper 32⟩,
   ⟨0xFF41, 0xFF5A, .lower⟩, ⟨0x10400, 0x10427, .upper 40⟩, ⟨0x10428, 0x1044F, .lower⟩,
   ⟨0x104B0, 0x104D3, .upper 40⟩, ⟨0x104D8, 0x104FB, .lower⟩, ⟨0x10570, 0x1057A, .upper 39⟩,
   ⟨0x1057C, 0x1058A, .upper 39⟩, ⟨0x1058C, 0x10592, .upper 39⟩, ⟨0x10594, 0x10595, .upper 39⟩,
   ⟨0x10597, 0x105A1, .lower⟩, ⟨0x105A3, 0x105B1, .lower⟩, ⟨0x105B3, 0x105B9, .lower⟩,
   ⟨0x105BB, 0x105BC, .lower⟩, ⟨0x10780, 0x10780, .lower⟩, ⟨0x10783, 0x10785, .lower⟩,
   ⟨0x10787, 0x107B0, .lower⟩, ⟨0x107B2, 0x107BA, .lower⟩, ⟨0x10C80, 0x10CB2, .upper 64⟩,
   ⟨0x10CC0, 0x10CF2, .lower⟩, ⟨0x10D50, 0x10D65, .upper 32⟩, ⟨0x10D70, 0x10D85, .lower⟩,
   ⟨0x118A0, 0x118BF, .upper 32⟩, ⟨0x118C0, 0x118DF, .lower⟩, ⟨0x16E40, 0x16E5F, .upper 32⟩,
   ⟨0x16E60, 0x16E7F, .lower⟩, ⟨0x16EA0, 0x16EB8, .upper 27⟩, ⟨0x16EBB, 0x16ED3, .lower⟩,
   ⟨0x1D400, 0x1D419, .upper 0⟩, ⟨0x1D41A, 0x1D433, .lower⟩, ⟨0x1D434, 0x1D44D, .upper 0⟩,
   ⟨0x1D44E, 0x1D454, .lower⟩, ⟨0x1D456, 0x1D467, .lower⟩, ⟨0x1D468, 0x1D481, .upper 0⟩,
   ⟨0x1D482, 0x1D49B, .lower⟩, ⟨0x1D49C, 0x1D49C, .upper 0⟩, ⟨0x1D49E, 0x1D49F, .upper 0⟩,
   ⟨0x1D4A2, 0x1D4A2, .upper 0⟩, ⟨0x1D4A5, 0x1D4A6, .upper 0⟩, ⟨0x1D4A9, 0x1D4AC, .upper 0⟩,
   ⟨0x1D4AE, 0x1D4B5, .upper 0⟩, ⟨0x1D4B6, 0x1D4B9, .lower⟩, ⟨0x1D4BB, 0x1D4BB, .lower⟩,
   ⟨0x1D4BD, 0x1D4C3, .lower⟩, ⟨0x1D4C5, 0x1D4CF, .lower⟩, ⟨0x1D4D0, 0x1D4E9, .upper 0⟩,
   ⟨0x1D4EA, 0x1D503, .lower⟩, ⟨0x1D504, 0x1D505, .upper 0⟩, ⟨0x1D507, 0x1D50A, .upper 0⟩,
   ⟨0x1D50D, 0x1D514, .upper 0⟩, ⟨0x1D516, 0x1D51C, .upper 0⟩, ⟨0x1D51E, 0x1D537, .lower⟩,
   ⟨0x1D538, 0x1D539, .upper 0⟩, ⟨0x1D53B, 0x1D53E, .upper 0⟩, ⟨0x1D540, 0x1D544, .upper 0⟩,
   ⟨0x1D546, 0x1D546, .upper 0⟩, ⟨0x1D54A, 0x1D550, .upper 0⟩, ⟨0x1D552, 0x1D56B, .lower⟩,
   ⟨0x1D56C, 0x1D585, .upper 0⟩, ⟨0x1D586, 0x1D59F, .lower⟩, ⟨0x1D5A0, 0x1D5B9, .upper 0⟩,
   ⟨0x1D5BA, 0x1D5D3, .lower⟩, ⟨0x1D5D4, 0x1D5ED, .upper 0⟩, ⟨0x1D5EE, 0x1D607, .lower⟩,
   ⟨0x1D608, 0x1D621, .upper 0⟩, ⟨0x1D622, 0x1D63B, .lower⟩, ⟨0x1D63C, 0x1D655, .upper 0⟩,
   ⟨0x1D656, 0x1D66F, .lower⟩, ⟨0x1D670, 0x1D689, .upper 0⟩, ⟨0x1D68A, 0x1D6A5, .lower⟩,
   ⟨0x1D6A8, 0x1D6C0, .upper 0⟩, ⟨0x1D6C2, 0x1D6DA, .lower⟩, ⟨0x1D6DC, 0x1D6E1, .lower⟩,
   ⟨0x1D6E2, 0x1D6FA, .upper 0⟩, ⟨0x1D6FC, 0x1D714, .lower⟩, ⟨0x1D716, 0x1D71B, .lower⟩,
   ⟨0x1D71C, 0x1D734, .upper 0⟩, ⟨0x1D736, 0x1D74E, .lower⟩, ⟨0x1D750, 0x1D755, .lower⟩,
   ⟨0x1D756, 0x1D76E, .upper 0⟩, ⟨0x1D770, 0x1D788, .lower⟩, ⟨0x1D78A, 0x1D78F, .lower⟩,
   ⟨0x1D790, 0x1D7A8, .upper 0⟩, ⟨0x1D7AA, 0x1D7C2, .lower⟩, ⟨0x1D7C4, 0x1D7C9, .lower⟩,
   ⟨0x1D7CA, 0x1D7CA, .upper 0⟩, ⟨0x1D7CB, 0x1D7CB, .lower⟩, ⟨0x1DF00, 0x1DF09, .lower⟩,
   ⟨0x1DF0B, 0x1DF1E, .lower⟩, ⟨0x1DF25, 0x1DF2A, .lower⟩, ⟨0x1E030, 0x1E06D, .lower⟩,
   ⟨0x1E900, 0x1E921, .upper 34⟩, ⟨0x1E922, 0x1E943, .lower⟩, ⟨0x1F130, 0x1F149, .upper 0⟩,
   ⟨0x1F150, 0x1F169, .upper 0⟩, ⟨0x1F170, 0x1F189, .upper 0⟩
  ]

end TypeExport.Text

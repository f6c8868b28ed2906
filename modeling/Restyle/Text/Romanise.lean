import Restyle.Text.Utf8

/-!
# Romanisation

How characters beyond ASCII are spelled in ASCII, one by one and without regard to what stands around
them.  A character of no block is spelled by nothing.
-/

namespace Restyle

/-- The spellings of consecutive characters from `first` on. -/
structure SpellingBlock where
  first : Nat
  spellings : List String

def spellingBlocks : List SpellingBlock := [
  ⟨0xA0, [" ", "!", "C/", "PS", "$?", "Y=", "|", "SS", "\"", "(c)", "a", "<<", "!", "", "(r)", "-",
    "deg", "+-", "2", "3", "'", "u", "P", "*", ",", "1", "o", ">>", "1/4", "1/2", "3/4", "?", "A",
    "A", "A", "A", "A", "A", "AE", "C", "E", "E", "E", "E", "I", "I", "I", "I", "D", "N", "O", "O",
    "O", "O", "O", "x", "O", "U", "U", "U", "U", "Y", "Th", "ss", "a", "a", "a", "a", "a", "a",
    "ae", "c", "e", "e", "e", "e", "i", "i", "i", "i", "d", "n", "o", "o", "o", "o", "o", "/", "o",
    "u", "u", "u", "u", "y", "th", "y", "A", "a", "A", "a", "A", "a", "C", "c", "C", "c", "C", "c",
    "C", "c", "D", "d", "D", "d", "E", "e", "E", "e", "E", "e", "E", "e", "E", "e", "G", "g", "G",
    "g", "G", "g", "G", "g", "H", "h", "H", "h", "I", "i", "I", "i", "I", "i", "I", "i", "I", "i",
    "IJ", "ij", "J", "j", "K", "k", "k", "L", "l", "L", "l", "L", "l", "L", "l", "L", "l", "N",
    "n", "N", "n", "N", "n", "'n", "NG", "ng", "O", "o", "O", "o", "O", "o", "OE", "oe", "R", "r",
    "R", "r", "R", "r", "S", "s", "S", "s", "S", "s", "S", "s", "T", "t", "T", "t", "T", "t", "U",
    "u", "U", "u", "U", "u", "U", "u", "U", "u", "U", "u", "W", "w", "Y", "y", "Y", "Z", "z", "Z",
    "z", "Z", "z", "s", "b", "B", "B", "b", "6", "6", "O", "C", "c", "D", "D", "D", "d", "d", "3",
    "@", "E", "F", "f", "G", "G", "hv", "I", "I", "K", "k", "l", "l", "W", "N", "n", "O", "O", "o",
    "OI", "oi", "P", "p", "YR", "2", "2", "SH", "sh", "t", "T", "t", "T", "U", "u", "Y", "V", "Y",
    "y", "Z", "z", "ZH", "ZH", "zh", "zh", "2", "5", "5", "ts", "w", "|", "||", "|=", "!", "DZ",
    "Dz", "dz", "LJ", "Lj", "lj", "NJ", "Nj", "nj", "A", "a", "I", "i", "O", "o", "U", "u", "U",
    "u", "U", "u", "U", "u", "U", "u", "@", "A", "a", "A", "a", "AE", "ae", "G", "g", "G", "g",
    "K", "k", "O", "o", "O", "o", "ZH", "zh", "j", "DZ", "D", "dz", "G", "g", "HV", "W", "N", "n",
    "A", "a", "AE", "ae", "O", "o", "A", "a", "A", "a", "E", "e", "E", "e", "I", "i", "I", "i",
    "O", "o", "O", "o", "R", "r", "R", "r", "U", "u", "U", "u", "S", "s", "T", "t", "Y", "y", "H",
    "h", "N", "d", "OU", "ou", "Z", "z", "A", "a", "E", "e", "O", "o", "O", "o", "O", "o", "O",
    "o", "Y", "y"]⟩,
  ⟨0x386, ["A", "", "E", "E", "I", "", "O", "", "U", "O", "I", "A", "B", "G", "D", "E", "Z", "E",
    "Th", "I", "K", "L", "M", "N", "Ks", "O", "P", "R", "", "S", "T", "U", "Ph", "Kh", "Ps", "O",
    "I", "U", "a", "e", "e", "i", "u", "a", "b", "g", "d", "e", "z", "e", "th", "i", "k", "l", "m",
    "n", "x", "o", "p", "r", "s", "s", "t", "u", "ph", "kh", "ps", "o", "i", "u", "o", "u", "o"]⟩,
  ⟨0x400, ["Ie", "Io", "Dj", "Gj", "Ie", "Dz", "I", "Yi", "J", "Lj", "Nj", "Tsh", "Kj", "I", "U",
    "Dzh", "A", "B", "V", "G", "D", "E", "Zh", "Z", "I", "I", "K", "L", "M", "N", "O", "P", "R",
    "S", "T", "U", "F", "Kh", "Ts", "Ch", "Sh", "Shch", "'", "Y", "'", "E", "Iu", "Ia", "a", "b",
    "v", "g", "d", "e", "zh", "z", "i", "i", "k", "l", "m", "n", "o", "p", "r", "s", "t", "u", "f",
    "kh", "ts", "ch", "sh", "shch", "'", "y", "'", "e", "iu", "ia", "ie", "io", "dj", "gj", "ie",
    "dz", "i", "yi", "j", "lj", "nj", "tsh", "kj", "i", "u", "dzh"]⟩,
  ⟨0x490, ["G", "g", "G'", "g'"]⟩,
  ⟨0x1E00, ["A", "a", "B", "b", "B", "b", "B", "b", "C", "c", "D", "d", "D", "d", "D", "d", "D",
    "d", "D", "d", "E", "e", "E", "e", "E", "e", "E", "e", "E", "e", "F", "f", "G", "g", "H", "h",
    "H", "h", "H", "h", "H", "h", "H", "h", "I", "i", "I", "i", "K", "k", "K", "k", "K", "k", "L",
    "l", "L", "l", "L", "l", "L", "l", "M", "m", "M", "m", "M", "m", "N", "n", "N", "n", "N", "n",
    "N", "n", "O", "o", "O", "o", "O", "o", "O", "o", "P", "p", "P", "p", "R", "r", "R", "r", "R",
    "r", "R", "r", "S", "s", "S", "s", "S", "s", "S", "s", "S", "s", "T", "t", "T", "t", "T", "t",
    "T", "t", "U", "u", "U", "u", "U", "u", "U", "u", "U", "u", "V", "v", "V", "v", "W", "w", "W",
    "w", "W", "w", "W", "w", "W", "w", "X", "x", "X", "x", "Y", "y", "Z", "z", "Z", "z", "Z", "z",
    "h", "t", "w", "y", "a", "S", "", "", "Ss", "", "A", "a", "A", "a", "A", "a", "A", "a", "A",
    "a", "A", "a", "A", "a", "A", "a", "A", "a", "A", "a", "A", "a", "A", "a", "E", "e", "E", "e",
    "E", "e", "E", "e", "E", "e", "E", "e", "E", "e", "E", "e", "I", "i", "I", "i", "O", "o", "O",
    "o", "O", "o", "O", "o", "O", "o", "O", "o", "O", "o", "O", "o", "O", "o", "O", "o", "O", "o",
    "O", "o", "U", "u", "U", "u", "U", "u", "U", "u", "U", "u", "U", "u", "U", "u", "Y", "y", "Y",
    "y", "Y", "y", "Y", "y"]⟩,
  ⟨0x2000, [" ", " ", " ", " ", " ", " ", " ", " ", " ", " ", " "]⟩,
  ⟨0x2010, ["-", "-", "-", "-", "--", "--", "||", "_", "'", "'", ",", "'", "\"", "\"", ",,", "\"",
    "+", "++", "*", "*>", ".", "..", "...", ".", "\n", "\n\n"]⟩,
  ⟨0x202F, [" ", "%0", "%00", "'", "''", "'''", "`", "``", "```", "^", "<", ">", "*", "!!", "!?",
    "-", "_", "-", "^", "***", "--", "/", "-[", "]-"]⟩,
  ⟨0x205F, [" "]⟩,
  ⟨0x2070, ["0", "", "", "", "4", "5", "6", "7", "8", "9", "+", "-", "=", "(", ")", "n", "0", "1",
    "2", "3", "4", "5", "6", "7", "8", "9", "+", "-", "=", "(", ")"]⟩,
  ⟨0x20A0, ["ECU", "CL", "Cr", "FF", "L", "mil", "N", "Pts", "Rs", "W", "NS", "D", "EU", "K", "T",
    "Dr"]⟩,
  ⟨0x2116, ["No"]⟩,
  ⟨0x2122, ["tm", "", "", "", "O", "", "", "", "K", "A"]⟩,
  ⟨0x2153, ["1/3", "2/3", "1/5", "2/5", "3/5", "4/5", "1/6", "5/6", "1/8", "3/8", "5/8", "7/8",
    "1/", "I", "II", "III", "IV", "V", "VI", "VII", "VIII", "IX", "X", "XI", "XII", "L", "C", "D",
    "M", "i", "ii", "iii", "iv", "v", "vi", "vii", "viii", "ix", "x", "xi", "xii", "l", "c", "d",
    "m"]⟩,
  ⟨0x2212, ["-"]⟩,
  ⟨0x3000, [" ", ", ", ". "]⟩,
  ⟨0x3041, ["a", "a", "i", "i", "u", "u", "e", "e", "o", "o", "ka", "ga", "ki", "gi", "ku", "gu",
    "ke", "ge", "ko", "go", "sa", "za", "shi", "zi", "su", "zu", "se", "ze", "so", "zo", "ta",
    "da", "chi", "di", "tsu", "tsu", "du", "te", "de", "to", "do", "na", "ni", "nu", "ne", "no",
    "ha", "ba", "pa", "hi", "bi", "pi", "hu", "bu", "pu", "he", "be", "pe", "ho", "bo", "po", "ma",
    "mi", "mu", "me", "mo", "ya", "ya", "yu", "yu", "yo", "yo", "ra", "ri", "ru", "re", "ro", "wa",
    "wa", "wi", "we", "wo", "n", "vu"]⟩,
  ⟨0x30A1, ["a", "a", "i", "i", "u", "u", "e", "e", "o", "o", "ka", "ga", "ki", "gi", "ku", "gu",
    "ke", "ge", "ko", "go", "sa", "za", "shi", "zi", "su", "zu", "se", "ze", "so", "zo", "ta",
    "da", "chi", "di", "tsu", "tsu", "du", "te", "de", "to", "do", "na", "ni", "nu", "ne", "no",
    "ha", "ba", "pa", "hi", "bi", "pi", "hu", "bu", "pu", "he", "be", "pe", "ho", "bo", "po", "ma",
    "mi", "mu", "me", "mo", "ya", "ya", "yu", "yu", "yo", "yo", "ra", "ri", "ru", "re", "ro", "wa",
    "wa", "wi", "we", "wo", "n", "vu"]⟩,
  ⟨0x4E00, ["Yi ", "", "", "Qi "]⟩,
  ⟨0x4E09, ["San ", "Shang ", "Xia "]⟩,
  ⟨0x4E2D, ["Zhong "]⟩,
  ⟨0x4E5D, ["Jiu "]⟩,
  ⟨0x4E8C, ["Er "]⟩,
  ⟨0x4E94, ["Wu "]⟩,
  ⟨0x4EAC, ["Jing "]⟩,
  ⟨0x4EBA, ["Ren "]⟩,
  ⟨0x516B, ["Ba ", "", "Liu "]⟩,
  ⟨0x5317, ["Bei "]⟩,
  ⟨0x5341, ["Shi "]⟩,
  ⟨0x5357, ["Nan "]⟩,
  ⟨0x56DB, ["Si "]⟩,
  ⟨0x56FD, ["Guo "]⟩,
  ⟨0x570B, ["Guo "]⟩,
  ⟨0x5927, ["Da ", "", "Tian "]⟩,
  ⟨0x5B50, ["Zi "]⟩,
  ⟨0x5B57, ["Zi "]⟩,
  ⟨0x5B66, ["Xue "]⟩,
  ⟨0x5C0F, ["Xiao "]⟩,
  ⟨0x5C71, ["Shan "]⟩,
  ⟨0x5E74, ["Nian "]⟩,
  ⟨0x6587, ["Wen "]⟩,
  ⟨0x65B0, ["Xin "]⟩,
  ⟨0x65E5, ["Ri "]⟩,
  ⟨0x6708, ["Yue "]⟩,
  ⟨0x672C, ["Ben "]⟩,
  ⟨0x6771, ["Dong "]⟩,
  ⟨0x6C34, ["Shui "]⟩,
  ⟨0x6D77, ["Hai "]⟩,
  ⟨0x706B, ["Huo "]⟩,
  ⟨0x897F, ["Xi "]⟩,
  ⟨0x8A9E, ["Yu "]⟩,
  ⟨0x8BED, ["Yu "]⟩,
  ⟨0x91D1, ["Jin "]⟩,
  ⟨0xFB00, ["ff", "fi", "fl", "ffi", "ffl", "st", "st"]⟩,
  ⟨0xFF01, ["!", "\"", "#", "$", "%", "&", "'", "(", ")", "*", "+", ",", "-", ".", "/", "0", "1",
    "2", "3", "4", "5", "6", "7", "8", "9", ":", ";", "<", "=", ">", "?", "@", "A", "B", "C", "D",
    "E", "F", "G", "H", "I", "J", "K", "L", "M", "N", "O", "P", "Q", "R", "S", "T", "U", "V", "W",
    "X", "Y", "Z", "[", "\\", "]", "^", "_", "`", "a", "b", "c", "d", "e", "f", "g", "h", "i", "j",
    "k", "l", "m", "n", "o", "p", "q", "r", "s", "t", "u", "v", "w", "x", "y", "z", "\x7b", "|",
    "\x7d", "~"]⟩]

/-- The ASCII spelling of a character. -/
def romanise (c : Char) : List Char :=
  if c.toNat < 0x80 then [c]
  else
    match spellingBlocks.find? fun b => b.first ≤ c.toNat && c.toNat < b.first + b.spellings.length with
    | some b => (b.spellings.getD (c.toNat - b.first) "").toList
    | none => []

end Restyle

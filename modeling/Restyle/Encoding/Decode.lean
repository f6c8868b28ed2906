import Restyle.Encoding.Registry

/-!
# Reading documents

A document that begins with a byte order mark is read in the form the mark tells, any other in the
code page, and without code page it is taken as it is.
-/

namespace Restyle

/-- Reads data of a known form, or of no known form, as UTF-8. -/
def readAs (form : Option Unicode.Form) (page : Option CodePage) (data : Bytes)
    (wide : CodePage.Wide := .ascii) : Except Unicode.Error Bytes :=
  match form, page with
  | some f, _ => Utf8.encode <$> f.decode data
  | none, some p => .ok (Utf8.encode (p.decode wide data))
  | none, none => .ok data

def decode (page : Option CodePage) (data : Bytes) (wide : CodePage.Wide := .ascii) :
    Except Unicode.Error Bytes :=
  readAs (Unicode.Form.detect? data) page data wide

end Restyle

import Restyle.Encoding.CodePage

/-!
# Registered character sets

The names under which character sets are known, case left aside, and what reads each of them.
-/

namespace Restyle.CodePage

/-- A registered character set.  For many there is no decoder. -/
structure Charset where
  name : String
  aliases : List String
  decoder : Option Decoder

def charsets : List Charset := [
  ⟨"US-ASCII", ["iso-ir-6", "ANSI_X3.4-1968", "ANSI_X3.4-1986", "ISO_646.irv:1991",
    "ISO646-US", "us", "IBM367", "cp367", "csASCII"], some (.single (.upper ""))⟩,
  ⟨"ISO_8859-1:1987", ["iso-ir-100", "ISO_8859-1", "ISO-8859-1", "latin1", "l1", "IBM819",
    "CP819", "csISOLatin1"], some (.single (.upper Table.iso8859x1))⟩,
  ⟨"ISO_8859-2:1987", ["iso-ir-101", "ISO_8859-2", "ISO-8859-2", "latin2", "l2", "csISOLatin2"],
    some (.single (.upper Table.iso8859x2))⟩,
  ⟨"ISO_8859-3:1988", ["iso-ir-109", "ISO_8859-3", "ISO-8859-3", "latin3", "l3", "csISOLatin3"],
    some (.single (.upper Table.iso8859x3))⟩,
  ⟨"ISO_8859-4:1988", ["iso-ir-110", "ISO_8859-4", "ISO-8859-4", "latin4", "l4", "csISOLatin4"],
    some (.single (.upper Table.iso8859x4))⟩,
  ⟨"ISO_8859-5:1988", ["iso-ir-144", "ISO_8859-5", "ISO-8859-5", "cyrillic",
    "csISOLatinCyrillic"], some (.single (.upper Table.iso8859x5))⟩,
  ⟨"ISO_8859-6:1987", ["iso-ir-127", "ISO_8859-6", "ISO-8859-6", "ECMA-114", "ASMO-708",
    "arabic", "csISOLatinArabic"], some (.single (.upper Table.iso8859x6))⟩,
  ⟨"ISO_8859-7:1987", ["iso-ir-126", "ISO_8859-7", "ISO-8859-7", "ELOT_928", "ECMA-118",
    "greek", "greek8", "csISOLatinGreek"], some (.single (.upper Table.iso8859x7))⟩,
  ⟨"ISO_8859-8:1988", ["iso-ir-138", "ISO_8859-8", "ISO-8859-8", "hebrew", "csISOLatinHebrew"],
    some (.single (.upper Table.iso8859x8))⟩,
  ⟨"ISO_8859-9:1989", ["iso-ir-148", "ISO_8859-9", "ISO-8859-9", "latin5", "l5", "csISOLatin5"],
    some (.single (.upper Table.iso8859x9))⟩,
  ⟨"ISO-8859-10", ["iso-ir-157", "l6", "ISO_8859-10:1992", "csISOLatin6", "latin6"],
    some (.single (.upper Table.iso8859x10))⟩,
  ⟨"ISO_6937-2-add", ["iso-ir-142", "csISOTextComm"], none⟩,
  ⟨"JIS_X0201", ["X0201", "csHalfWidthKatakana"], none⟩,
  ⟨"JIS_Encoding", ["csJISEncoding"], none⟩,
  ⟨"Shift_JIS", ["MS_Kanji", "csShiftJIS"], some .wide⟩,
  ⟨"Extended_UNIX_Code_Packed_Format_for_Japanese", ["csEUCPkdFmtJapanese", "EUC-JP"], some .wide⟩,
  ⟨"Extended_UNIX_Code_Fixed_Width_for_Japanese", ["csEUCFixWidJapanese"], none⟩,
  ⟨"BS_4730", ["iso-ir-4", "ISO646-GB", "gb", "uk", "csISO4UnitedKingdom"], none⟩,
  ⟨"SEN_850200_C", ["iso-ir-11", "ISO646-SE2", "se2", "csISO11SwedishForNames"], none⟩,
  ⟨"IT", ["iso-ir-15", "ISO646-IT", "csISO15Italian"], none⟩,
  ⟨"ES", ["iso-ir-17", "ISO646-ES", "csISO17Spanish"], none⟩,
  ⟨"DIN_66003", ["iso-ir-21", "de", "ISO646-DE", "csISO21German"], none⟩,
  ⟨"NS_4551-1", ["iso-ir-60", "ISO646-NO", "no", "csISO60DanishNorwegian", "csISO60Norwegian1"],
    none⟩,
  ⟨"NF_Z_62-010", ["iso-ir-69", "ISO646-FR", "fr", "csISO69French"], none⟩,
  ⟨"ISO-10646-UTF-1", ["csISO10646UTF1"], none⟩,
  ⟨"ISO_646.basic:1983", ["ref", "csISO646basic1983"], none⟩,
  ⟨"INVARIANT", ["csINVARIANT"], none⟩,
  ⟨"ISO_646.irv:1983", ["iso-ir-2", "irv", "csISO2IntlRefVersion"], none⟩,
  ⟨"NATS-SEFI", ["iso-ir-8-1", "csNATSSEFI"], none⟩,
  ⟨"NATS-SEFI-ADD", ["iso-ir-8-2", "csNATSSEFIADD"], none⟩,
  ⟨"NATS-DANO", ["iso-ir-9-1", "csNATSDANO"], none⟩,
  ⟨"NATS-DANO-ADD", ["iso-ir-9-2", "csNATSDANOADD"], none⟩,
  ⟨"SEN_850200_B", ["iso-ir-10", "FI", "ISO646-FI", "ISO646-SE", "se", "csISO10Swedish"], none⟩,
  ⟨"KS_C_5601-1987", ["iso-ir-149", "KS_C_5601-1989", "KSC_5601", "korean", "csKSC56011987"],
    none⟩,
  ⟨"ISO-2022-KR", ["csISO2022KR"], none⟩,
  ⟨"EUC-KR", ["csEUCKR"], some .wide⟩,
  ⟨"ISO-2022-JP", ["csISO2022JP"], some .wide⟩,
  ⟨"ISO-2022-JP-2", ["csISO2022JP2"], none⟩,
  ⟨"JIS_C6220-1969-jp", ["JIS_C6220-1969", "iso-ir-13", "katakana", "x0201-7",
    "csISO13JISC6220jp"], none⟩,
  ⟨"JIS_C6220-1969-ro", ["iso-ir-14", "jp", "ISO646-JP", "csISO14JISC6220ro"], none⟩,
  ⟨"PT", ["iso-ir-16", "ISO646-PT", "csISO16Portuguese"], none⟩,
  ⟨"greek7-old", ["iso-ir-18", "csISO18Greek7Old"], none⟩,
  ⟨"latin-greek", ["iso-ir-19", "csISO19LatinGreek"], none⟩,
  ⟨"NF_Z_62-010_(1973)", ["iso-ir-25", "ISO646-FR1", "csISO25French"], none⟩,
  ⟨"Latin-greek-1", ["iso-ir-27", "csISO27LatinGreek1"], none⟩,
  ⟨"ISO_5427", ["iso-ir-37", "csISO5427Cyrillic"], none⟩,
  ⟨"JIS_C6226-1978", ["iso-ir-42", "csISO42JISC62261978"], none⟩,
  ⟨"BS_viewdata", ["iso-ir-47", "csISO47BSViewdata"], none⟩,
  ⟨"INIS", ["iso-ir-49", "csISO49INIS"], none⟩,
  ⟨"INIS-8", ["iso-ir-50", "csISO50INIS8"], none⟩,
  ⟨"INIS-cyrillic", ["iso-ir-51", "csISO51INISCyrillic"], none⟩,
  ⟨"ISO_5427:1981", ["iso-ir-54", "ISO5427Cyrillic1981", "csISO54271981"], none⟩,
  ⟨"ISO_5428:1980", ["iso-ir-55", "csISO5428Greek"], none⟩,
  ⟨"GB_1988-80", ["iso-ir-57", "cn", "ISO646-CN", "csISO57GB1988"], none⟩,
  ⟨"GB_2312-80", ["iso-ir-58", "chinese", "csISO58GB231280"], none⟩,
  ⟨"NS_4551-2", ["ISO646-NO2", "iso-ir-61", "no2", "csISO61Norwegian2"], none⟩,
  ⟨"videotex-suppl", ["iso-ir-70", "csISO70VideotexSupp1"], none⟩,
  ⟨"PT2", ["iso-ir-84", "ISO646-PT2", "csISO84Portuguese2"], none⟩,
  ⟨"ES2", ["iso-ir-85", "ISO646-ES2", "csISO85Spanish2"], none⟩,
  ⟨"MSZ_7795.3", ["iso-ir-86", "ISO646-HU", "hu", "csISO86Hungarian"], none⟩,
  ⟨"JIS_C6226-1983", ["iso-ir-87", "x0208", "JIS_X0208-1983", "csISO87JISX0208"], none⟩,
  ⟨"greek7", ["iso-ir-88", "csISO88Greek7"], none⟩,
  ⟨"ASMO_449", ["ISO_9036", "arabic7", "iso-ir-89", "csISO89ASMO449"], none⟩,
  ⟨"iso-ir-90", ["csISO90"], none⟩,
  ⟨"JIS_C6229-1984-a", ["iso-ir-91", "jp-ocr-a", "csISO91JISC62291984a"], none⟩,
  ⟨"JIS_C6229-1984-b", ["iso-ir-92", "ISO646-JP-OCR-B", "jp-ocr-b", "csISO92JISC62991984b"], none⟩,
  ⟨"JIS_C6229-1984-b-add", ["iso-ir-93", "jp-ocr-b-add", "csISO93JIS62291984badd"], none⟩,
  ⟨"JIS_C6229-1984-hand", ["iso-ir-94", "jp-ocr-hand", "csISO94JIS62291984hand"], none⟩,
  ⟨"JIS_C6229-1984-hand-add", ["iso-ir-95", "jp-ocr-hand-add", "csISO95JIS62291984handadd"], none⟩,
  ⟨"JIS_C6229-1984-kana", ["iso-ir-96", "csISO96JISC62291984kana"], none⟩,
  ⟨"ISO_2033-1983", ["iso-ir-98", "e13b", "csISO2033"], none⟩,
  ⟨"ANSI_X3.110-1983", ["iso-ir-99", "CSA_T500-1983", "NAPLPS", "csISO99NAPLPS"], none⟩,
  ⟨"T.61-7bit", ["iso-ir-102", "csISO102T617bit"], none⟩,
  ⟨"T.61-8bit", ["T.61", "iso-ir-103", "csISO103T618bit"], none⟩,
  ⟨"ECMA-cyrillic", ["iso-ir-111", "KOI8-E", "csISO111ECMACyrillic"], none⟩,
  ⟨"CSA_Z243.4-1985-1", ["iso-ir-121", "ISO646-CA", "csa7-1", "csa71", "ca", "csISO121Canadian1"],
    none⟩,
  ⟨"CSA_Z243.4-1985-2", ["iso-ir-122", "ISO646-CA2", "csa7-2", "csa72", "csISO122Canadian2"],
    none⟩,
  ⟨"CSA_Z243.4-1985-gr", ["iso-ir-123", "csISO123CSAZ24341985gr"], none⟩,
  ⟨"ISO_8859-6-E", ["csISO88596E", "ISO-8859-6-E"], some (.single (.upper Table.iso8859x6))⟩,
  ⟨"ISO_8859-6-I", ["csISO88596I", "ISO-8859-6-I"], some (.single (.upper Table.iso8859x6))⟩,
  ⟨"T.101-G2", ["iso-ir-128", "csISO128T101G2"], none⟩,
  ⟨"ISO_8859-8-E", ["csISO88598E", "ISO-8859-8-E"], some (.single (.upper Table.iso8859x8))⟩,
  ⟨"ISO_8859-8-I", ["csISO88598I", "ISO-8859-8-I"], some (.single (.upper Table.iso8859x8))⟩,
  ⟨"CSN_369103", ["iso-ir-139", "csISO139CSN369103"], none⟩,
  ⟨"JUS_I.B1.002", ["iso-ir-141", "ISO646-YU", "js", "yu", "csISO141JUSIB1002"], none⟩,
  ⟨"IEC_P27-1", ["iso-ir-143", "csISO143IECP271"], none⟩,
  ⟨"JUS_I.B1.003-serb", ["iso-ir-146", "serbian", "csISO146Serbian"], none⟩,
  ⟨"JUS_I.B1.003-mac", ["macedonian", "iso-ir-147", "csISO147Macedonian"], none⟩,
  ⟨"greek-ccitt", ["iso-ir-150", "csISO150", "csISO150GreekCCITT"], none⟩,
  ⟨"NC_NC00-10:81", ["cuba", "iso-ir-151", "ISO646-CU", "csISO151Cuba"], none⟩,
  ⟨"ISO_6937-2-25", ["iso-ir-152", "csISO6937Add"], none⟩,
  ⟨"GOST_19768-74", ["ST_SEV_358-88", "iso-ir-153", "csISO153GOST1976874"], none⟩,
  ⟨"ISO_8859-supp", ["iso-ir-154", "latin1-2-5", "csISO8859Supp"], none⟩,
  ⟨"ISO_10367-box", ["iso-ir-155", "csISO10367Box"], none⟩,
  ⟨"latin-lap", ["lap", "iso-ir-158", "csISO158Lap"], none⟩,
  ⟨"JIS_X0212-1990", ["x0212", "iso-ir-159", "csISO159JISX02121990"], none⟩,
  ⟨"DS_2089", ["DS2089", "ISO646-DK", "dk", "csISO646Danish"], none⟩,
  ⟨"us-dk", ["csUSDK"], none⟩,
  ⟨"dk-us", ["csDKUS"], none⟩,
  ⟨"KSC5636", ["ISO646-KR", "csKSC5636"], none⟩,
  ⟨"UNICODE-1-1-UTF-7", ["csUnicode11UTF7"], none⟩,
  ⟨"ISO-2022-CN", ["csISO2022CN"], none⟩,
  ⟨"ISO-2022-CN-EXT", ["csISO2022CNEXT"], none⟩,
  ⟨"UTF-8", ["csUTF8"], some .utf8⟩,
  ⟨"ISO-8859-13", ["csISO885913"], some (.single (.upper Table.iso8859x13))⟩,
  ⟨"ISO-8859-14", ["iso-ir-199", "ISO_8859-14:1998", "ISO_8859-14", "latin8", "iso-celtic",
    "l8", "csISO885914"], some (.single (.upper Table.iso8859x14))⟩,
  ⟨"ISO-8859-15", ["ISO_8859-15", "Latin-9", "csISO885915"],
    some (.single (.upper Table.iso8859x15))⟩,
  ⟨"ISO-8859-16", ["iso-ir-226", "ISO_8859-16:2001", "ISO_8859-16", "latin10", "l10",
    "csISO885916"], some (.single (.upper Table.iso8859x16))⟩,
  ⟨"GBK", ["CP936", "MS936", "windows-936", "csGBK"], some .wide⟩,
  ⟨"GB18030", ["csGB18030"], some .wide⟩,
  ⟨"OSD_EBCDIC_DF04_15", ["csOSDEBCDICDF0415"], none⟩,
  ⟨"OSD_EBCDIC_DF03_IRV", ["csOSDEBCDICDF03IRV"], none⟩,
  ⟨"OSD_EBCDIC_DF04_1", ["csOSDEBCDICDF041"], none⟩,
  ⟨"ISO-11548-1", ["ISO_11548-1", "ISO_TR_11548-1", "csISO115481"], none⟩,
  ⟨"KZ-1048", ["STRK1048-2002", "RK1048", "csKZ1048"], none⟩,
  ⟨"ISO-10646-UCS-2", ["csUnicode"], none⟩,
  ⟨"ISO-10646-UCS-4", ["csUCS4"], none⟩,
  ⟨"ISO-10646-UCS-Basic", ["csUnicodeASCII"], none⟩,
  ⟨"ISO-10646-Unicode-Latin1", ["csUnicodeLatin1", "ISO-10646"], none⟩,
  ⟨"ISO-10646-J-1", ["csUnicodeJapanese"], none⟩,
  ⟨"ISO-Unicode-IBM-1261", ["csUnicodeIBM1261"], none⟩,
  ⟨"ISO-Unicode-IBM-1268", ["csUnicodeIBM1268"], none⟩,
  ⟨"ISO-Unicode-IBM-1276", ["csUnicodeIBM1276"], none⟩,
  ⟨"ISO-Unicode-IBM-1264", ["csUnicodeIBM1264"], none⟩,
  ⟨"ISO-Unicode-IBM-1265", ["csUnicodeIBM1265"], none⟩,
  ⟨"UNICODE-1-1", ["csUnicode11"], none⟩,
  ⟨"SCSU", ["csSCSU"], none⟩,
  ⟨"UTF-7", ["csUTF7"], none⟩,
  ⟨"UTF-16BE", ["csUTF16BE"], some (.utf16 .big false)⟩,
  ⟨"UTF-16LE", ["csUTF16LE"], some (.utf16 .little false)⟩,
  ⟨"UTF-16", ["csUTF16"], some (.utf16 .big true)⟩,
  ⟨"CESU-8", ["csCESU8", "csCESU-8"], none⟩,
  ⟨"UTF-32", ["csUTF32"], none⟩,
  ⟨"UTF-32BE", ["csUTF32BE"], none⟩,
  ⟨"UTF-32LE", ["csUTF32LE"], none⟩,
  ⟨"BOCU-1", ["csBOCU1", "csBOCU-1"], none⟩,
  ⟨"ISO-8859-1-Windows-3.0-Latin-1", ["csWindows30Latin1"], none⟩,
  ⟨"ISO-8859-1-Windows-3.1-Latin-1", ["csWindows31Latin1"], none⟩,
  ⟨"ISO-8859-2-Windows-Latin-2", ["csWindows31Latin2"], none⟩,
  ⟨"ISO-8859-9-Windows-Latin-5", ["csWindows31Latin5"], none⟩,
  ⟨"hp-roman8", ["roman8", "r8", "csHPRoman8"], none⟩,
  ⟨"Adobe-Standard-Encoding", ["csAdobeStandardEncoding"], none⟩,
  ⟨"Ventura-US", ["csVenturaUS"], none⟩,
  ⟨"Ventura-International", ["csVenturaInternational"], none⟩,
  ⟨"DEC-MCS", ["dec", "csDECMCS"], none⟩,
  ⟨"IBM850", ["cp850", "850", "csPC850Multilingual"], some (.single (.upper Table.ibm850))⟩,
  ⟨"IBM852", ["cp852", "852", "csPCp852"], some (.single (.upper Table.ibm852))⟩,
  ⟨"IBM437", ["cp437", "437", "csPC8CodePage437"], some (.single (.upper Table.ibm437))⟩,
  ⟨"PC8-Danish-Norwegian", ["csPC8DanishNorwegian"], none⟩,
  ⟨"IBM862", ["cp862", "862", "csPC862LatinHebrew"], some (.single (.upper Table.ibm862))⟩,
  ⟨"PC8-Turkish", ["csPC8Turkish"], none⟩,
  ⟨"IBM-Symbols", ["csIBMSymbols"], none⟩,
  ⟨"IBM-Thai", ["csIBMThai"], none⟩,
  ⟨"HP-Legal", ["csHPLegal"], none⟩,
  ⟨"HP-Pi-font", ["csHPPiFont"], none⟩,
  ⟨"HP-Math8", ["csHPMath8"], none⟩,
  ⟨"Adobe-Symbol-Encoding", ["csHPPSMath"], none⟩,
  ⟨"HP-DeskTop", ["csHPDesktop"], none⟩,
  ⟨"Ventura-Math", ["csVenturaMath"], none⟩,
  ⟨"Microsoft-Publishing", ["csMicrosoftPublishing"], none⟩,
  ⟨"Windows-31J", ["csWindows31J"], none⟩,
  ⟨"GB2312", ["csGB2312"], none⟩,
  ⟨"Big5", ["csBig5"], some .wide⟩,
  ⟨"macintosh", ["mac", "csMacintosh"], some (.single (.upper Table.macintosh))⟩,
  ⟨"IBM037", ["cp037", "ebcdic-cp-us", "ebcdic-cp-ca", "ebcdic-cp-wt", "ebcdic-cp-nl",
    "csIBM037"], some (.single (.whole Table.ibm037))⟩,
  ⟨"IBM038", ["EBCDIC-INT", "cp038", "csIBM038"], none⟩,
  ⟨"IBM273", ["CP273", "csIBM273"], none⟩,
  ⟨"IBM274", ["EBCDIC-BE", "CP274", "csIBM274"], none⟩,
  ⟨"IBM275", ["EBCDIC-BR", "cp275", "csIBM275"], none⟩,
  ⟨"IBM277", ["EBCDIC-CP-DK", "EBCDIC-CP-NO", "csIBM277"], none⟩,
  ⟨"IBM278", ["CP278", "ebcdic-cp-fi", "ebcdic-cp-se", "csIBM278"], none⟩,
  ⟨"IBM280", ["CP280", "ebcdic-cp-it", "csIBM280"], none⟩,
  ⟨"IBM281", ["EBCDIC-JP-E", "cp281", "csIBM281"], none⟩,
  ⟨"IBM284", ["CP284", "ebcdic-cp-es", "csIBM284"], none⟩,
  ⟨"IBM285", ["CP285", "ebcdic-cp-gb", "csIBM285"], none⟩,
  ⟨"IBM290", ["cp290", "EBCDIC-JP-kana", "csIBM290"], none⟩,
  ⟨"IBM297", ["cp297", "ebcdic-cp-fr", "csIBM297"], none⟩,
  ⟨"IBM420", ["cp420", "ebcdic-cp-ar1", "csIBM420"], none⟩,
  ⟨"IBM423", ["cp423", "ebcdic-cp-gr", "csIBM423"], none⟩,
  ⟨"IBM424", ["cp424", "ebcdic-cp-he", "csIBM424"], none⟩,
  ⟨"IBM500", ["CP500", "ebcdic-cp-be", "ebcdic-cp-ch", "csIBM500"], none⟩,
  ⟨"IBM851", ["cp851", "851", "csIBM851"], none⟩,
  ⟨"IBM855", ["cp855", "855", "csIBM855"], some (.single (.upper Table.ibm855))⟩,
  ⟨"IBM857", ["cp857", "857", "csIBM857"], none⟩,
  ⟨"IBM860", ["cp860", "860", "csIBM860"], some (.single (.upper Table.ibm860))⟩,
  ⟨"IBM861", ["cp861", "861", "cp-is", "csIBM861"], none⟩,
  ⟨"IBM863", ["cp863", "863", "csIBM863"], some (.single (.upper Table.ibm863))⟩,
  ⟨"IBM864", ["cp864", "csIBM864"], none⟩,
  ⟨"IBM865", ["cp865", "865", "csIBM865"], some (.single (.upper Table.ibm865))⟩,
  ⟨"IBM868", ["CP868", "cp-ar", "csIBM868"], none⟩,
  ⟨"IBM869", ["cp869", "869", "cp-gr", "csIBM869"], none⟩,
  ⟨"IBM870", ["CP870", "ebcdic-cp-roece", "ebcdic-cp-yu", "csIBM870"], none⟩,
  ⟨"IBM871", ["CP871", "ebcdic-cp-is", "csIBM871"], none⟩,
  ⟨"IBM880", ["cp880", "EBCDIC-Cyrillic", "csIBM880"], none⟩,
  ⟨"IBM891", ["cp891", "csIBM891"], none⟩,
  ⟨"IBM903", ["cp903", "csIBM903"], none⟩,
  ⟨"IBM904", ["cp904", "904", "csIBBM904"], none⟩,
  ⟨"IBM905", ["CP905", "ebcdic-cp-tr", "csIBM905"], none⟩,
  ⟨"IBM918", ["CP918", "ebcdic-cp-ar2", "csIBM918"], none⟩,
  ⟨"IBM1026", ["CP1026", "csIBM1026"], none⟩,
  ⟨"EBCDIC-AT-DE", ["csIBMEBCDICATDE"], none⟩,
  ⟨"EBCDIC-AT-DE-A", ["csEBCDICATDEA"], none⟩,
  ⟨"EBCDIC-CA-FR", ["csEBCDICCAFR"], none⟩,
  ⟨"EBCDIC-DK-NO", ["csEBCDICDKNO"], none⟩,
  ⟨"EBCDIC-DK-NO-A", ["csEBCDICDKNOA"], none⟩,
  ⟨"EBCDIC-FI-SE", ["csEBCDICFISE"], none⟩,
  ⟨"EBCDIC-FI-SE-A", ["csEBCDICFISEA"], none⟩,
  ⟨"EBCDIC-FR", ["csEBCDICFR"], none⟩,
  ⟨"EBCDIC-IT", ["csEBCDICIT"], none⟩,
  ⟨"EBCDIC-PT", ["csEBCDICPT"], none⟩,
  ⟨"EBCDIC-ES", ["csEBCDICES"], none⟩,
  ⟨"EBCDIC-ES-A", ["csEBCDICESA"], none⟩,
  ⟨"EBCDIC-ES-S", ["csEBCDICESS"], none⟩,
  ⟨"EBCDIC-UK", ["csEBCDICUK"], none⟩,
  ⟨"EBCDIC-US", ["csEBCDICUS"], none⟩,
  ⟨"UNKNOWN-8BIT", ["csUnknown8BiT"], none⟩,
  ⟨"MNEMONIC", ["csMnemonic"], none⟩,
  ⟨"MNEM", ["csMnem"], none⟩,
  ⟨"VISCII", ["csVISCII"], none⟩,
  ⟨"VIQR", ["csVIQR"], none⟩,
  ⟨"KOI8-R", ["csKOI8R"], some (.single (.upper Table.koi8r))⟩,
  ⟨"HZ-GB-2312", [], some .wide⟩,
  ⟨"IBM866", ["cp866", "866", "csIBM866"], some (.single (.upper Table.ibm866))⟩,
  ⟨"IBM775", ["cp775", "csPC775Baltic"], none⟩,
  ⟨"KOI8-U", ["csKOI8U"], some (.single (.upper Table.koi8u))⟩,
  ⟨"IBM00858", ["CCSID00858", "CP00858", "PC-Multilingual-850+euro", "csIBM00858"],
    some (.single (.upper Table.ibm858))⟩,
  ⟨"IBM00924", ["CCSID00924", "CP00924", "ebcdic-Latin9--euro", "csIBM00924"], none⟩,
  ⟨"IBM01140", ["CCSID01140", "CP01140", "ebcdic-us-37+euro", "csIBM01140"],
    some (.single (.whole Table.ibm1140))⟩,
  ⟨"IBM01141", ["CCSID01141", "CP01141", "ebcdic-de-273+euro", "csIBM01141"], none⟩,
  ⟨"IBM01142", ["CCSID01142", "CP01142", "ebcdic-dk-277+euro", "ebcdic-no-277+euro",
    "csIBM01142"], none⟩,
  ⟨"IBM01143", ["CCSID01143", "CP01143", "ebcdic-fi-278+euro", "ebcdic-se-278+euro",
    "csIBM01143"], none⟩,
  ⟨"IBM01144", ["CCSID01144", "CP01144", "ebcdic-it-280+euro", "csIBM01144"], none⟩,
  ⟨"IBM01145", ["CCSID01145", "CP01145", "ebcdic-es-284+euro", "csIBM01145"], none⟩,
  ⟨"IBM01146", ["CCSID01146", "CP01146", "ebcdic-gb-285+euro", "csIBM01146"], none⟩,
  ⟨"IBM01147", ["CCSID01147", "CP01147", "ebcdic-fr-297+euro", "csIBM01147"], none⟩,
  ⟨"IBM01148", ["CCSID01148", "CP01148", "ebcdic-international-500+euro", "csIBM01148"], none⟩,
  ⟨"IBM01149", ["CCSID01149", "CP01149", "ebcdic-is-871+euro", "csIBM01149"], none⟩,
  ⟨"Big5-HKSCS", ["csBig5HKSCS"], none⟩,
  ⟨"IBM1047", ["IBM-1047", "csIBM1047"], some (.single (.whole Table.ibm1047))⟩,
  ⟨"PTCP154", ["csPTCP154", "PT154", "CP154", "Cyrillic-Asian"], none⟩,
  ⟨"Amiga-1251", ["Ami1251", "Amiga1251", "Ami-1251", "csAmiga1251"], none⟩,
  ⟨"KOI7-switched", ["csKOI7switched"], none⟩,
  ⟨"BRF", ["csBRF"], none⟩,
  ⟨"TSCII", ["csTSCII"], none⟩,
  ⟨"CP51932", ["csCP51932"], none⟩,
  ⟨"windows-874", ["cswindows874"], some (.single (.upper Table.windows874))⟩,
  ⟨"windows-1250", ["cswindows1250"], some (.single (.upper Table.windows1250))⟩,
  ⟨"windows-1251", ["cswindows1251"], some (.single (.upper Table.windows1251))⟩,
  ⟨"windows-1252", ["cswindows1252"], some (.single (.upper Table.windows1252))⟩,
  ⟨"windows-1253", ["cswindows1253"], some (.single (.upper Table.windows1253))⟩,
  ⟨"windows-1254", ["cswindows1254"], some (.single (.upper Table.windows1254))⟩,
  ⟨"windows-1255", ["cswindows1255"], some (.single (.upper Table.windows1255))⟩,
  ⟨"windows-1256", ["cswindows1256"], some (.single (.upper Table.windows1256))⟩,
  ⟨"windows-1257", ["cswindows1257"], some (.single (.upper Table.windows1257))⟩,
  ⟨"windows-1258", ["cswindows1258"], some (.single (.upper Table.windows1258))⟩,
  ⟨"TIS-620", ["csTIS620", "ISO-8859-11"], none⟩,
  ⟨"CP50220", ["csCP50220"], none⟩]

inductive Error where
  | unknown
  | unsupported (name : Bytes)
  deriving Repr, DecidableEq

def Error.message : Error → Bytes
  | .unknown => "ianaindex: invalid encoding name"
  | .unsupported name => "character set " ++ quote name ++ " is not supported"

def Charset.isCalled (c : Charset) (name : List Char) : Bool :=
  (c.name :: c.aliases).any fun n => lowerText n.toList == name

/-- The code page of a name, white space around it left aside. -/
def ofName (name : Bytes) : Except Error CodePage :=
  match charsets.find? (·.isCalled (lowerText (trim (Utf8.codePoints name)))) with
  | none => .error .unknown
  | some c =>
    match c.decoder with
    | none => .error (.unsupported name)
    | some d => .ok ⟨c.name, d⟩

end Restyle.CodePage

import SqlAnalysis.Text.Blank
import SqlAnalysis.Text.Case

/-!
Character sets by their registered names. Every alias leads to one preferred spelling; a registered
set without an encoding of its own keeps the name it was asked for, in capitals.
-/

namespace SqlAnalysis.Charset

/-- The names that a text lists. A star is for the short form of a name too: `cs` and the letters
and digits of the name. Signs are for the start of names: `!` for numbers of the register of sets,
`~` for variants of its first set, and `#` for code pages, each of which has three names. -/
def namesIn (s : String) : List String :=
  (Text.words s).flatMap fun w => match w.toList with
    | '!' :: n => ["iso-ir-" ++ String.ofList n]
    | '~' :: n => ["iso646-" ++ String.ofList n]
    | '#' :: n => ["ibm", "csibm", "cp"].map (· ++ String.ofList n)
    | cs =>
      let name := cs.filter (· ≠ '*')
      if cs.contains '*' then
        [String.ofList name, String.ofList ('c' :: 's' :: name.filter Char.isAlphanum)] else [w]

def encoded : List (String × String) := [
  ("US-ASCII",
  "us-ascii !6 ansi_x3.4-1968 ansi_x3.4-1986 iso_646.irv:1991 ~us us ibm367 cp367 csascii"),
  ("ISO-8859-1", "iso_8859-1:1987 !100 iso_8859-1 iso-8859-1 latin1 l1 ibm819 cp819 csisolatin1"),
  ("ISO-8859-2", "iso_8859-2:1987 !101 iso_8859-2 iso-8859-2 latin2 l2 csisolatin2"),
  ("ISO-8859-3", "iso_8859-3:1988 !109 iso_8859-3 iso-8859-3 latin3 l3 csisolatin3"),
  ("ISO-8859-4", "iso_8859-4:1988 !110 iso_8859-4 iso-8859-4 latin4 l4 csisolatin4"),
  ("ISO-8859-5", "iso_8859-5:1988 !144 iso_8859-5 iso-8859-5 cyrillic csisolatincyrillic"),
  ("ISO-8859-6",
  "iso_8859-6:1987 !127 iso_8859-6 iso-8859-6 ecma-114 asmo-708 arabic csisolatinarabic"),
  ("ISO-8859-7",
  "iso_8859-7:1987 !126 iso_8859-7 iso-8859-7 elot_928 ecma-118 greek greek8 csisolatingreek"),
  ("ISO-8859-8", "iso_8859-8:1988 !138 iso_8859-8 iso-8859-8 hebrew csisolatinhebrew"),
  ("ISO-8859-9", "iso_8859-9:1989 !148 iso_8859-9 iso-8859-9 latin5 l5 csisolatin5"),
  ("ISO-8859-10", "iso-8859-10 !157 l6 iso_8859-10:1992 csisolatin6 latin6"),
  ("Shift_JIS", "shift_jis* ms_kanji"),
  ("EUC-JP", "extended_unix_code_packed_format_for_japanese cseucpkdfmtjapanese euc-jp"),
  ("EUC-KR", "euc-kr*"),
  ("ISO-2022-JP", "iso-2022-jp*"), ("ISO-8859-6-E", "iso_8859-6-e* iso-8859-6-e"),
  ("ISO-8859-6-I", "iso_8859-6-i* iso-8859-6-i"), ("ISO-8859-8-E", "iso_8859-8-e* iso-8859-8-e"),
  ("ISO-8859-8-I", "iso_8859-8-i* iso-8859-8-i"), ("UTF-8", "utf-8*"),
  ("ISO-8859-13", "iso-8859-13*"),
  ("ISO-8859-14", "iso-8859-14* !199 iso_8859-14:1998 iso_8859-14 latin8 iso-celtic l8"),
  ("ISO-8859-15", "iso-8859-15* iso_8859-15 latin-9"),
  ("ISO-8859-16", "iso-8859-16* !226 iso_8859-16:2001 iso_8859-16 latin10 l10"),
  ("GBK", "gbk* cp936 ms936 windows-936"), ("GB18030", "gb18030*"), ("UTF-16BE", "utf-16be*"),
  ("UTF-16LE", "utf-16le*"), ("UTF-16", "utf-16*"),
  ("IBM850", "ibm850 cp850 850 cspc850multilingual"),
  ("IBM852", "ibm852 cp852 852 cspcp852"), ("IBM437", "ibm437 cp437 437 cspc8codepage437"),
  ("IBM862", "ibm862 cp862 862 cspc862latinhebrew"), ("Big5", "big5*"),
  ("macintosh", "macintosh* mac"),
  ("IBM037", "#037 ebcdic-cp-us ebcdic-cp-ca ebcdic-cp-wt ebcdic-cp-nl"), ("IBM855", "#855 855"),
  ("IBM860", "#860 860"), ("IBM863", "#863 863"), ("IBM865", "#865 865"), ("KOI8-R", "koi8-r*"),
  ("HZ-GB-2312", "hz-gb-2312"), ("IBM866", "#866 866"), ("KOI8-U", "koi8-u*"),
  ("IBM00858", "#00858 ccsid00858 pc-multilingual-850+euro"),
  ("IBM01140", "#01140 ccsid01140 ebcdic-us-37+euro"),
  ("IBM1047", "ibm1047* ibm-1047"), ("windows-874", "windows-874*"),
  ("windows-1250", "windows-1250*"),
  ("windows-1251", "windows-1251*"), ("windows-1252", "windows-1252*"),
  ("windows-1253", "windows-1253*"),
  ("windows-1254", "windows-1254*"), ("windows-1255", "windows-1255*"),
  ("windows-1256", "windows-1256*"),
  ("windows-1257", "windows-1257*"), ("windows-1258", "windows-1258*")]

def registeredOnly : String :=
  "iso_6937-2-add !142 csisotextcomm jis_x0201 x0201 cshalfwidthkatakana jis_encoding*
extended_unix_code_fixed_width_for_japanese cseucfixwidjapanese bs_4730 !4 ~gb gb uk
csiso4unitedkingdom sen_850200_c !11 ~se2 se2 csiso11swedishfornames it !15 ~it csiso15italian
es !17 ~es csiso17spanish din_66003 !21 de ~de csiso21german ns_4551-1 !60 ~no no
csiso60danishnorwegian csiso60norwegian1 nf_z_62-010 !69 ~fr fr csiso69french iso-10646-utf-1*
iso_646.basic:1983* ref invariant* iso_646.irv:1983 !2 irv csiso2intlrefversion nats-sefi* !8-1
nats-sefi-add* !8-2 nats-dano* !9-1 nats-dano-add* !9-2 sen_850200_b !10 fi ~fi ~se se
csiso10swedish ks_c_5601-1987* !149 ks_c_5601-1989 ksc_5601 korean iso-2022-kr* iso-2022-jp-2*
jis_c6220-1969-jp jis_c6220-1969 !13 katakana x0201-7 csiso13jisc6220jp jis_c6220-1969-ro !14
jp ~jp csiso14jisc6220ro pt !16 ~pt csiso16portuguese greek7-old !18 csiso18greek7old
latin-greek !19 csiso19latingreek nf_z_62-010_(1973) !25 ~fr1 csiso25french latin-greek-1 !27
csiso27latingreek1 iso_5427 !37 csiso5427cyrillic jis_c6226-1978 !42 csiso42jisc62261978
bs_viewdata !47 csiso47bsviewdata inis !49 csiso49inis inis-8 !50 csiso50inis8 inis-cyrillic !51
csiso51iniscyrillic iso_5427:1981* !54 iso5427cyrillic1981 iso_5428:1980 !55 csiso5428greek
gb_1988-80 !57 cn ~cn csiso57gb1988 gb_2312-80 !58 chinese csiso58gb231280 ns_4551-2 ~no2 !61 no2
csiso61norwegian2 videotex-suppl !70 csiso70videotexsupp1 pt2 !84 ~pt2 csiso84portuguese2
es2 !85 ~es2 csiso85spanish2 msz_7795.3 !86 ~hu hu csiso86hungarian jis_c6226-1983 !87 x0208
jis_x0208-1983 csiso87jisx0208 greek7 !88 csiso88greek7 asmo_449 iso_9036 arabic7 !89
csiso89asmo449 !90 csiso90 jis_c6229-1984-a !91 jp-ocr-a csiso91jisc62291984a
jis_c6229-1984-b !92 ~jp-ocr-b jp-ocr-b csiso92jisc62991984b jis_c6229-1984-b-add !93 jp-ocr-b-add
csiso93jis62291984badd jis_c6229-1984-hand !94 jp-ocr-hand csiso94jis62291984hand
jis_c6229-1984-hand-add !95 jp-ocr-hand-add csiso95jis62291984handadd jis_c6229-1984-kana !96
csiso96jisc62291984kana iso_2033-1983 !98 e13b csiso2033 ansi_x3.110-1983 !99 csa_t500-1983 naplps
csiso99naplps t.61-7bit !102 csiso102t617bit t.61-8bit t.61 !103 csiso103t618bit ecma-cyrillic !111
koi8-e csiso111ecmacyrillic csa_z243.4-1985-1 !121 ~ca csa7-1 csa71 ca csiso121canadian1
csa_z243.4-1985-2 !122 ~ca2 csa7-2 csa72 csiso122canadian2 csa_z243.4-1985-gr !123
csiso123csaz24341985gr t.101-g2 !128 csiso128t101g2 csn_369103 !139 csiso139csn369103
jus_i.b1.002 !141 ~yu js yu csiso141jusib1002 iec_p27-1 !143 csiso143iecp271 jus_i.b1.003-serb !146
serbian csiso146serbian jus_i.b1.003-mac macedonian !147 csiso147macedonian greek-ccitt !150
csiso150 csiso150greekccitt nc_nc00-10:81 cuba !151 ~cu csiso151cuba iso_6937-2-25 !152
csiso6937add gost_19768-74 st_sev_358-88 !153 csiso153gost1976874 iso_8859-supp* !154 latin1-2-5
iso_10367-box* !155 latin-lap lap !158 csiso158lap jis_x0212-1990 x0212 !159 csiso159jisx02121990
ds_2089 ds2089 ~dk dk csiso646danish us-dk* dk-us* ksc5636* ~kr unicode-1-1-utf-7* iso-2022-cn*
iso-2022-cn-ext* osd_ebcdic_df04_15* osd_ebcdic_df03_irv* osd_ebcdic_df04_1* iso-11548-1*
iso_11548-1 iso_tr_11548-1 kz-1048* strk1048-2002 rk1048 iso-10646-ucs-2 csunicode iso-10646-ucs-4
csucs4 iso-10646-ucs-basic csunicodeascii iso-10646-unicode-latin1 csunicodelatin1 iso-10646
iso-10646-j-1 csunicodejapanese iso-unicode-ibm-1261 csunicodeibm1261 iso-unicode-ibm-1268
csunicodeibm1268 iso-unicode-ibm-1276 csunicodeibm1276 iso-unicode-ibm-1264 csunicodeibm1264
iso-unicode-ibm-1265 csunicodeibm1265 unicode-1-1* scsu* utf-7* cesu-8* cscesu-8 utf-32* utf-32be*
utf-32le* bocu-1* csbocu-1 utf-7-imap* iso-8859-1-windows-3.0-latin-1 cswindows30latin1
iso-8859-1-windows-3.1-latin-1 cswindows31latin1 iso-8859-2-windows-latin-2 cswindows31latin2
iso-8859-9-windows-latin-5 cswindows31latin5 hp-roman8* roman8 r8 adobe-standard-encoding*
ventura-us* ventura-international* dec-mcs* dec pc8-danish-norwegian* pc8-turkish* ibm-symbols*
ibm-thai* hp-legal* hp-pi-font* hp-math8* adobe-symbol-encoding cshppsmath hp-desktop*
ventura-math* microsoft-publishing* windows-31j* gb2312* #038 ebcdic-int #273 #274 ebcdic-be #275
ebcdic-br ibm277* ebcdic-cp-dk ebcdic-cp-no #278 ebcdic-cp-fi ebcdic-cp-se #280 ebcdic-cp-it #281
ebcdic-jp-e #284 ebcdic-cp-es #285 ebcdic-cp-gb #290 ebcdic-jp-kana #297 ebcdic-cp-fr #420
ebcdic-cp-ar1 #423 ebcdic-cp-gr #424 ebcdic-cp-he #500 ebcdic-cp-be ebcdic-cp-ch #851 851 #857
857 #861 861 cp-is #864 #868 cp-ar #869 869 cp-gr #870 ebcdic-cp-roece ebcdic-cp-yu #871
ebcdic-cp-is #880 ebcdic-cyrillic #891 #903 ibm904 cp904 904 csibbm904 #905 ebcdic-cp-tr #918
ebcdic-cp-ar2 #1026 ebcdic-at-de csibmebcdicatde ebcdic-at-de-a* ebcdic-ca-fr* ebcdic-dk-no*
ebcdic-dk-no-a* ebcdic-fi-se* ebcdic-fi-se-a* ebcdic-fr* ebcdic-it* ebcdic-pt* ebcdic-es*
ebcdic-es-a* ebcdic-es-s* ebcdic-uk* ebcdic-us* unknown-8bit* mnemonic* mnem* viscii* viqr* ibm775
cp775 cspc775baltic #00924 ccsid00924 ebcdic-latin9--euro #01141 ccsid01141
ebcdic-de-273+euro #01142 ccsid01142 ebcdic-dk-277+euro ebcdic-no-277+euro #01143 ccsid01143
ebcdic-fi-278+euro ebcdic-se-278+euro #01144 ccsid01144 ebcdic-it-280+euro #01145 ccsid01145
ebcdic-es-284+euro #01146 ccsid01146 ebcdic-gb-285+euro #01147 ccsid01147 ebcdic-fr-297+euro #01148
ccsid01148 ebcdic-international-500+euro #01149 ccsid01149 ebcdic-is-871+euro big5-hkscs* ptcp154*
pt154 cp154 cyrillic-asian amiga-1251* ami1251 amiga1251 ami-1251 koi7-switched* brf* tscii*
cp51932* tis-620* iso-8859-11 cp50220*"

def canonical? (name : String) : Option String :=
  let key := Text.lower (Text.trim name)
  let isNamedIn (names : String) : Bool := (namesIn names).contains key
  match encoded.find? (fun e => isNamedIn e.2) with
  | some (preferred, _) => some preferred
  | none => if isNamedIn registeredOnly then some (Text.upper name) else none

end SqlAnalysis.Charset

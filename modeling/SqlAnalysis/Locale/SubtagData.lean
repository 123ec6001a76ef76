/-!
The subtags of locale tags that are registered: languages, scripts, regions and variants, and which
of them stand for others. Each table is a text of words.
-/

namespace SqlAnalysis.Locale

/-- Languages with a code of two letters; the code of three letters follows, or stands alone if it
starts with the other. -/
def shortLanguages : String :=
  "aar abk aeave afr aka amh anarg ara asm ava aym aze bak bel bgbul bhbih bis bmbam bnben bod bre
bsbos cat ceche cha cos cre csces cuchu cvchv cym dan deu dvdiv dzo eeewe ell eng eoepo esspa etest
eus fas ffful fin fjfij fofao fra fyfry gagle gdgla glg gngrn guj gvglv hau heb hin hohmo hrv hthat
hun hye hzher iaina idind ieile igibo iii ikipk ind ioido isl ita iuiku iwheb jajpn jiyid jvjav
jwjav kat kgkon kik kjkua kkkaz klkal kmkhm knkan kor krkau kskas kur kvkom kwcor kykir lat lbltz
lglug lim lnlin lolao ltlit lub lvlav mgmlg mhmah mimri mkd mlmal mnmon mol mrmar msa mtmlt mya nau
nbnob nde nep ngndo nld nno nor nrnbl nvnav nya oci oji omorm ori oss pan pipli plpol pspus ptpor
que rmroh rnrun ron rus rwkin san scsrd sdsnd sesme sgsag shhbs sin skslk slv smo sna som sqi srp
ssw stsot sun svswe swa tam tel tgk tha tir tktuk tltgl tntsn ton trtur tso tttat twi tytah uguig
ukr urd uzb ven vie vol wawln wol xho yid yor zazha zho zul"

/-- Languages with a code of three letters only: the first two letters, then each letter that may
follow them, where `a-d` stands for four letters, or a dash and each letter that may not. -/
def longLanguages : String :=
  "aa-jry ab-jk ac-cgi-lo ad-ckmv ae-f-joptvx af-cfjlmqrtv-y ag- ah-c-fjqu-z ai-huvz ajaginptuwz
ak-ajmnxy al- am-dhl an- ao-hopquvwy ap-q aqacdgk-nrtz ar-afg as-m at-f au-bvx avbdik-os-v
aw-fjlpqz axbegklmx ay-fjmvwy azbcdgjmnotz ba-km bb-hz bc-x bd- be-gln bf-rv bg-ehkl bh-x bi-hijs
bj-e bk-e bl-lu bm-ty bn-hl bo-cdis bp-bfn bq-eh br-e bs-dgz bt-l bu-l bv-ps bw-nv bx-detxy
by-goqtuy bz-g ca-t cb-efhmpxz cccdeghjl-s cd-abgklpqt-y ceabgklnty cfadgm cgacgk ch-acesuv
ciabcehmnprwy cjaehikm-prsvy ck-c-kpw cl-bfgnpqrvxz cmacegiklnorst cn-defjmnouvyz co-inrsvw
cp-dhj-mqrtvwz cqdu cr-eu cs-ix ct-bfijkqrvwx cu-d-gmnqrwz cvgn cwabdegt cxh cyabo czehknt da-bnt
db-chkrsxz dccr ddadegijnorsw dec-ik-nqrsvz dg-fjmpquvy dhdgil-orsu-x di-emv dja-fi-oruw dkagklrsx
dlgmn dm-hijpqtz dn-bcfhlmpqsxz do-dgjmquz dpp dr-bdfjkmpvxz dsbehiklnoq dtabdhikmopr-uy du- dva
dwaklrsuwyz dyabdgimnoruy dzadegln eaa ebcgkoru ecrsy efaei egalmoxy ehsu eiptv eja ekaegiklmopry
elekmopux em-cdfhjloqrtvy en-egijkpstuyz eot epi eraghikrstw eseghik-osuxy etbhnor-uxz eudq evehn
ewo ext eyao ezae fa-ceoqsvw fbl fcs fer ffim fgr fiaeflprtuw fkkv flahilnry fmpu fnbgi fodimnrsx
fpe fqs frcdekmo-t fsels fu-agjklopswxz fvr fwae ga- gb-t gccdflnrt gdb-oq-ux ge-enptu gfkx
ggabdegklnortuw ghaceknorst gi-fijkuvw gjkmnru gkadenopu glbcdh-loruw gm-cfijkopst gn-fpsvxy go-z
gpaen gqanr gr-flnop gsegl-psw gtaiu gu-jy gvacefjl-prsy gw-hklopqsvyz gxx gy-chjkpqs-x gzain ha-tu
hbabnou hch hdnsy headghim hgmw hhiry hiabdf-mortwx hji hkaehks hlabdetu hm-ceghiklo hnadeg-jmnos
ho-fgnquxz hpos hr-bdf-jlnqsvy hsbhlns htiosux hu-ajnoq hvceknv hwaco hyawx iainr ibabdeghilmnruy
icaehr ida-eir-u ifabefkmuy igbegl-osw ihbipw iinr ijcejnos ik-a-dfgjmnquy ilabgiklmopsuvw
imilnorsty inbceghjlnopst ioruw ipio iquw iraehiknouxy is-bfjlpqsv-z it-afghjnpqu ium ivbv iwkmos
ixcl iyaox izhimrz ja-gipv jbeijkmnortuw jcst jdagt jebeghiklnrtu jgbeko jhis jia-eglmtuvy jjer
jkamou jles jma-dilnrswx jnadgijls jobdgrsw jparx jqr jrabrtu jsl ju-cefgjqvxz jvdn jwi jyaey
ka-eflnstuz kb-f kc-rx kd-bsu ke-jpq kf-jt kg-gnz kh-m ki-iknr kj-fvw kk-n kl- km- kn-h ko-bmnrx
kp-b kq- kr-gq ks-ay kt- ku-ar kv-u kw- kx-ghsu ky-p kz-gq la-fotvy lb-acdghp lcc-fhlmpqs ldabdg-q
le- lfan lg-c-fjpsv-y lhahimnstu li-mnt ljaeilpwx lk-fgkpqvwxz ll-hrtvwyz lm-stz ln-cefko-rtvxy
lo-dfv lpaenox lqr lracgik-ortvz ls-fghjkquxz ltcghinosu lu-bgx lvaiklsu lwaeghlmostw lxm lyan
lzhlnz ma-hlr mb-eg mc- md-o me-fix mf- mg- mh-ahv mi-v mj-afop mk-dgqu ml-dgmqty mm-jkls mn-
mo-bln mp-f mq-d mr-i ms-ac mt-z mu-fw mv-bcijm mw-xy mx- my-aioqs mz-fs na-uv nb-glz nc-vwy nd-eo
ne-flpsv nfadlru ng-o nh-hjls ni-kp nj-cefgkpqvw nk-lpy nl-bdfhlpst nm-y nn-o no-blrxz
npbghilnosuxy nqgk-oqty nr-cdhjoq-tvwy ns-j nt-abcfhlnqtvw nu-l nvhmo nwbcegimorwx nxadegiklnoqrux
nyb-y nzabdikmrsuyz oaacrv obiklmortu ocaou odaktu ofsu ogbcgou ohtu oiaen ojbcgsvw ok-fhjlnpqtwy
oladekmortu om-defhjmnsyz onaegijknopr-ux oodnr opakmoty oracegnor-z osacioptux ot-cfghjpv oubeimn
ovd owil oybdmy ozm pa-jn pb-adjkqwxz pca-kmnprw pdacnotu pe-cfhjntuw pfael pgadgiklnsuz
phdghik-ort-w pi-eikq pjt pkabghnoprsu pl-ijmpqxy pm-gpv pn-fux po-abdjlrux ppaeik-t pqaemw pr-bjnv
ps-bfjkvxyz ptahinoprtuv pu-hklnsv pwabgmnorw pxm pyemnsuxy pzehn qa- qb- qc- qd- qe- qf- qg- qh-
qi- qj- qk- ql- qm- qn- qo- qp- qq- qr- qs- qt- qu-ejotu qvacehijl-pswz qwacehmst qxachln-rtuw qyap
ra-eltu rbbklp rcf rdb reabegijlmnsty rganrsu rhgp riabflmnrtu rjgis rkabhimtw rm-j rnbdglnrw
roa-glmopruw rpnt rrimot rsik-nw rtchmw ru-adhjlnrsvwx rwaklmor rxdw ryu sa-gn sb-f sc-djmqyz
sd-dimptwyz se-x sfbemsw sg-fkoqv sh-flx si-cn sja-eglmnprtuw sk-l sl-bekqtv sm-emov sn-adht
so-fhjmt sp-afhjuwxz sqahjkmoqstux sr-djp ss-ikw st-cdxz su-dfhnpu svabcekms sw-adenz sxbenrsuw
sy-e-hjpqtuvz sza-dglnpsvwy ta-hmt tb-br tc-jlrtv td-pwz te-fjl tfinort tg-klmr th-abgjno ti-arz
tjagijlnopsuw tk-chijmnoy tl-eoz tm-sx tn-juz to-aent tp-bdhqs tqbl-ptuw tr-d ts-kno tt-agx tu-kr
tvadeik-ostuwx tw-cijksvz tx-cdfhklprvwz ty-bcdfgkmoqw tzahjl-ox uamr ubailruy udaegijlmu ues ufi
ugabehnoy uhan uisv uji uk-b-fjmnortxz ulabcefikmnuwy umabdgim-prsu unaegikmnpruxz uokn upiv
ur-dlqs usahikpsu utaehpru uumr uvehl uwa uya uzns va-bcdkqtwxz vbbk vecmopr vgrt vicdfglntv vjk
vkaj-ptuz vlps vm-notv vnkmp vort vraost vsilv vto vumnt vwa wa-o wb-cdgnouxyz wcai wddgjktuy
wecdghil-pr-uw wfg wgabgiouwy whagku wi-adopqsxz wjai wkadrwy wlaeghimorsu-x wma-ehimnostwx
wnb-egikm-puwy woa-gikmnorsw wpc wr-ac-fjnqty wsagikrsuv wtbfhikmw wu-ce-kopqswz wwaborw wxw
wybimnry xa-c-fhpqxz xbabdegijmnprwy xchor xdakoqy xedgmr-u xfa xgbdgimnuw xhemtuv xiainrsy xjbt
xk-kmo xlacduy xm-ei xn-ce-hlopsvwx xocdgikm-prw xp-cpsuy xrabdegimnqruw xs-cfgkotvwxz xt-fgkrxz
xubdjl-ortu xveinos xwadejklortw xxbkmrt xyabjklty xzhp ya- yb-cfgkp-wz yclnr ydadegks
yeaceijlnr-vy ygailmprsuw yhds yiag-jlmrsvy ykaghikmory ylabegilruy ymabegk-pt ynabdgklqsu
yobgik-nsty ypk yrabeklmoswy ysdlmnprsy ytwy yu-hkosvy yvat ywagnqruw yxaglmuy yyru za-ln zbaceltuw
zcah zdj zeaghmn zgabhmnr zhdinwx ziabk-nrwz zkabdoptuz zlaejmnqsuw zm- znadegks zochmoqrs zp- zqe
zrgnops zsalmru zteglmnpqstuxy zuhmny zwa zxx zybgjnp zzaj"

def languageReplacements : String :=
  "in:id iw:he ji:yi jw:jv mo:ro sh:sr tl:fil drh:khk aam:aas adp:dz asd:snz aue:ktz ayx:nun
bgm:bcg bic:bir bjd:drl blg:iba ccq:rki cjr:mom cka:cmr cmk:xch coy:pij cqu:quh dit:dif drr:kzk
gav:dev gfx:vaj ggn:gvr gli:kzk gti:nyc guv:duz hrr:jal ibi:opa ill:ilm izi:eza jar:jgk jeg:oyb
kgc:tdf kgd:ncq kgh:kml koj:kwv krm:bmf ktr:dtp kvs:gdj kwq:yam kxe:tvd kzj:dtp kzt:dtp lii:raq
llo:ngt lmm:rmx meg:cir mst:mry mwj:vaj myd:aog myt:mry nad:xny nbf:nru ncp:kdz nns:nbr nnx:ngv
nts:pij nxu:bpp oun:vaj pcr:adx pmc:huw pmu:phr ppa:bfy ppr:lcq pry:prt puz:pub sca:hle skk:oyb
tdu:dtp thc:tpo thx:oyb tie:ras tkk:twm tlw:weo tmp:tyj tne:kak tsf:taj uok:ema xba:cax xia:acn
xkh:waw xsj:suj ybd:rki yma:lrr ymt:mtm yos:zom yuu:yug zir:scv alb:sq arm:hy baq:eu bur:my chi:zh
cze:cs dut:nl fre:fr geo:ka ger:de gre:el ice:is jaw:jv mac:mk mao:mi may:ms per:fa rum:ro scc:sr
scr:hr slo:sk tib:bo wel:cy"

/-- Scripts: three letters, and then each letter that may follow them. -/
def scripts : String :=
  "Adlm Afak Aghb Ahom Arabn Armin Avst Bali Bamu Bass Batk Beng Bhks Blis Bopo Brahi Bugi Buhd
Cakm Cans Cari Cham Cher Chrs Cirt Copt Cpmn Cprt Cyrls Deva Diak Dogr Dsrt Dupl Egydhp Elba Elym
Ethi Geokr Glag Gongm Goth Gran Grek Gujr Guru Hanbgiost Hatr Hebr Hira Hluw Hmngp Hrkt Hung Inds
Ital Jamo Java Jpan Jurc Kali Kana Khar Khmr Khoj Kitls Knda Kore Kpel Kthi Lana Laoo Latfgn Leke
Lepc Limb Linab Lisu Loma Lyci Lydi Mahj Maka Mandi Marc Maya Medf Mend Merco Mlym Modi Mong Moon
Mroo Mtei Mult Mymr Nand Narb Nbat Newa Nkdb Nkgb Nkoo Nshu Ogam Olck Orkh Orya Osge Osma Ougr Palm
Pauc Pcun Pelm Perm Phag Phlipv Phnx Piqd Plrd Prti Psin Qaaa-z Qaba-x Ranj Rjng Rohg Roro Runr
Samr Sarab Saur Sgnw Shaw Shrd Shui Sidd Sindh Sogdo Sora Soyo Sund Sylo Syrcejn Tagb Takr Taleu
Taml Tang Tavt Telu Teng Tfng Tglg Thaai Tibt Tirh Tnsa Toto Ugar Vaii Visp Vith Wara Wcho Wole
Xpeo Xsux Yezi Yiii Zanb Zinh Zmth Zsyem Zxxx Zyyy Zzzz"

/-- Regions by their codes, as languages are, and then their numbers. -/
def regions : String :=
  "AAA958 ACASC ADAND020 AEARE784 AFG004 AGATG028 AIA660 ALB008 AMARM051 ANT530 AOAGO024 AQATA010
ARG032 ASM016 ATAUT040 AUS036 AWABW533 AXALA248 AZE031 BABIH070 BBBRB052 BDBGD050 BEL056 BFA854
BGR100 BHR048 BIBDI108 BJBEN204 BLM652 BMU060 BNBRN096 BOL068 BQBES535 BRA076 BSBHS044 BTN064 BUR
BVT074 BWA072 BYBLR112 BZBLZ084 CAN124 CCK166 CDCOD180 CFCAF140 CGCOG178 CHE756 CIV384 CKCOK184
CLCHL152 CMR120 CNCHN156 COL170 CPT CRI188 CSSCG891 CTE CUB192 CVCPV132 CWCUW531 CXR162 CYP196
CZE203 DDR278 DEU276 DGA DJI262 DKDNK208 DMA212 DOM214 DYDHY DZA012 EA ECU218 EEEST233 EGY818
EHESH732 ERI232 ESP724 ETH231 EU967 EZZ FIN246 FJI242 FKFLK238 FMFSM583 FOFRO234 FQQ FRA250 FXX249
GAB266 GBR826 GDGRD308 GEO268 GFGUF254 GGY831 GHA288 GIB292 GLGRL304 GMB270 GNGIN324 GPGLP312
GQGNQ226 GRC300 GSSGS239 GTM320 GUM316 GWGNB624 GYGUY328 HKG344 HMD334 HND340 HRV191 HTI332 HUN348
HVO IC IDN360 IEIRL372 ILISR376 IMN833 IND356 IOT086 IQIRQ368 IRN364 ISL352 ITA380 JEY832 JMJAM388
JOR400 JPN392 JTN KEN404 KGZ417 KHM116 KIR296 KMCOM174 KNA659 KPPRK408 KRKOR410 KWT414 KYCYM136
KZKAZ398 LAO418 LBN422 LCA662 LIE438 LKA144 LRLBR430 LSO426 LTU440 LUX442 LVA428 LYLBY434 MAR504
MCO492 MDA498 MEMNE499 MFMAF663 MGMDG450 MHL584 MID MKD807 MLI466 MMR104 MNG496 MOMAC446 MPMNP580
MQMTQ474 MRT478 MSR500 MTMLT470 MUS480 MVMDV462 MWI454 MXMEX484 MYS458 MZMOZ508 NAM516 NCL540
NER562 NFK574 NGA566 NHB NIC558 NLD528 NOR578 NPL524 NQATN NRU520 NTZ536 NUNIU570 NZL554 OMN512
PAN591 PCI582 PER604 PFPYF258 PGPNG598 PHL608 PKPAK586 PLPOL616 PMSPM666 PNPCN612 PRI630 PSE275
PTPRT620 PUS PWPLW585 PYPRY600 PZPCZ QAT634 QMM959 QNN960 QOO QPP962 QQQ963 QRR964 QSS965 QTT966
QUU QVV968 QWW969 QXX970 QYY971 QZZ972 REU638 RHO ROU642 RSSRB688 RUS643 RWA646 SAU682 SBSLB090
SCSYC690 SDN729 SESWE752 SGP702 SHN654 SISVN705 SJM744 SKSVK703 SLE694 SMR674 SNSEN686 SOM706
SRSUR740 SSD728 STP678 SUN810 SVSLV222 SXM534 SYR760 SZSWZ748 TAA TCA796 TDTCD148 TFATF260 TGO768
THA764 TJK762 TKL772 TLS626 TMTKM795 TNTUN788 TON776 TPTMP TRTUR792 TTO780 TVTUV798 TWN158 TZA834
UAUKR804 UGA800 UK UMI581 UN USA840 UYURY858 UZB860 VAT336 VCT670 VDR VEN862 VGB092 VIR850 VNM704
VUT548 WFWLF876 WKWAK WSM882 XAA973 XBB974 XCC975 XDD976 XEE977 XFF978 XGG979 XHH980 XII981 XJJ982
XKK983 XLL984 XMM985 XNN986 XOO987 XPP988 XQQ989 XRR990 XSS991 XTT992 XUU993 XVV994 XWW995 XXX996
XYY997 XZZ998 YDYMD720 YEM887 YTMYT175 YUG890 ZAF710 ZMB894 ZRZAR ZWE716 ZZZ999"

def regionGroups : String :=
  "001 002 003 005 009 011 013 014 015 017 018 019 021 029 030 034 035 039 053 054 057 061 142 143
145 150 151 154 155 202 419"

def regionReplacements : String :=
  "BU:MM CT:KI DD:DE DY:BJ FX:FR HV:BF JT:UM MI:UM NH:VU NQ:AQ PU:UM PZ:PA QU:EU RH:ZW TP:TL UK:GB
VD:VN WK:UM YD:YE ZR:CD"

/-- The known variants in the order in which a tag lists them. -/
def registeredVariants : String :=
  "1606nict 1694acad 1901 1959acad 1996 abl1943 akuapem aluku ao1990 aranes arevela arevmda arkaika
asante auvern baku1926 balanka barla basiceng bauddha biscayan bohoric boont bornholm cisaup
colb1945 cornu creiss dajnko ekavsk emodeng gallo gascon grclass grital grmistr hepburn hognorsk
hsistemo ijekavsk itihasa ivanchov jauer jyutping kkcor kociewie kscor laukika lemosin lengadoc
ltg1929 ltg2007 luna1918 metelko monoton ndyuka nedis newfound nicard nulik oxendict pahawh2
pahawh3 pahawh4 pamaka peano petr1708 pinyin polyton provenc puter rigik rozaj rumgr scotland
scouse sotav spanglis surmiran sursilv sutsilv synnejyl tarask tongyong tunumiir uccor ucrcor
ulster unifon vaidika valencia vallader vecdruka vivaraup wadegile xsistemo biske lipaw njiva osojs
solba 1994 heploc alalc97 fonipa fonkirsh fonnapa fonupa fonxsamp simple"

def wholeTags : String :=
  "art-lojban:jbo i-ami:ami i-bnn:bnn i-hak:hak i-klingon:tlh i-lux:lb i-navajo:nv i-pwn:pwn
i-tao:tao i-tay:tay i-tsu:tsu no-bok:nb no-nyn:nn sgn-be-fr:sfb sgn-be-nl:vgt sgn-ch-de:sgg
zh-guoyu:cmn zh-hakka:hak zh-min-nan:nan zh-xiang:hsn root:und cel-gaulish:xtg-x-cel-gaulish
en-gb-oed:en-GB-oxendict i-default:en-x-i-default i-enochian:und-x-i-enochian i-mingo:see-x-i-mingo
zh-min:nan-x-zh-min en-us-posix:en-US-u-va-posix"

end SqlAnalysis.Locale

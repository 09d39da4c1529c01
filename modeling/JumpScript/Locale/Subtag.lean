import JumpScript.Table

/-!
# Subtags

A language tag is made of subtags: a language, a script, a region and variants.  This module knows
the registered subtags, all in lower case, and the short form that each code of a language or a
region has.
-/

namespace JumpScript.Subtag

def words (lines : List String) : List Bytes :=
  lines.flatMap fun l => Bytes.splitOn [0x20] (text l)

/-- The table that words with a colon inside make up. -/
def pairs (lines : List String) : Table Bytes := (words lines).filterMap (Bytes.cut? [0x3A])

def shortLanguages : List Bytes := words
  ["aa ab ae af ak am an ar as av ay az ba be bg bh bi bm bn bo br bs ca ce ch co cr cs cu cv cy",
    "da de dv dz ee el en eo es et eu fa ff fi fj fo fr fy ga gd gl gn gu gv ha he hi ho hr ht hu",
    "hy hz ia id ie ig ii ik in io is it iu iw ja ji jv jw ka kg ki kj kk kl km kn ko kr ks ku kv",
    "kw ky la lb lg li ln lo lt lu lv mg mh mi mk ml mn mo mr ms mt my na nb nd ne ng nl nn no nr",
    "nv ny oc oj om or os pa pi pl ps pt qu rm rn ro ru rw sa sc sd se sg sh si sk sl sm sn so sq",
    "sr ss st su sv sw ta te tg th ti tk tl tn to tr ts tt tw ty ug uk ur uz ve vi vo wa wo xh yi",
    "yo za zh zu"]

/-- The languages of three letters: the first two letters with every third letter. -/
def longLanguages : Table Bytes := pairs
  ["aa:abcdefghiklmnopqrstuwxz ab:abcdefghiklmnopqrstuvwxyz ac:abdefhmnpqrstuvwxyz",
    "ad:abdefghijlnopqrstuwxyz ae:abcdeklmnqrsuwyz af:abdeghiknoprsuz",
    "ag:abcdefghijklmnopqrstuvwxyz ah:abghiklmnoprst ai:abcdefgijklmnopqrstwxy aj:aginptuwz",
    "ak:abcdefghiklopqrstuvwz al:abcdefghijklmnopqrstuvwxyz am:abcefghijkmnopqrstuvwxyz",
    "an:abcdefghijklmnopqrstuvwxyz ao:abcdefgijklmnrstxz ap:abcdefghijklmnoprstuvwxyz",
    "aq:acdgklmnrtz ar:abcdeghijklmnopqrstuvwxyz as:abcdefghijklmnopqrstuvwxyz",
    "at:abcdeghijklmnopqrstuvwxyz au:acdefghijklmnopqrstuwyz av:abdeiklmnostuv",
    "aw:abcdeghikmnorstuvwxy ax:begklmx ay:abcdeghiklmnopqrstuxz az:bcdegjmnotz",
    "ba:abcdefghijklmnopqrstuvwxyz bb:abcdefgijklmnopqrstuvwxy bc:abcdefghijklmnopqrstuvwyz",
    "bd:abcdefghijklmnopqrstuvwxyz be:abcdefhijklmnopqrstuvwxyz bf:abcdefghijklmnopqstuwxyz",
    "bg:abcdfgijmnopqrstuvwxyz bh:abcdefghijklmnopqrstuvwyz bi:abcdefghklmnopqrstuvwxyz",
    "bj:abcdfghijklmnopqrstuvwxyz bk:abcdfghijklmnopqrstuvwxyz bl:abcdefghijkmnopqrstvwxyz",
    "bm:abcdefghijklmnopqrsuvwxz bn:abcdefgijkmnopqrstuvwxyz bo:abdefghjklmnopqrstuvwxyz",
    "bp:acdeghijklmopqrstuvwxyz bq:abcdfgijklmnopqrstuvwxyz br:abcdefghijklmnopqrstuvwxyz",
    "bs:abcefhijklmnopqrstuvwxy bt:abcdefghijkmnopqrstuvwxyz bu:abcdefghijklmnopqrstuvwxyz",
    "bv:abcdefghijklmnoqrtuvwxyz bw:abcdefghijklmopqrstuwxyz bx:abcfghijklmnopqrsuvwz",
    "by:abcdefhijklmnprsvwxz bz:abcdefhijklmnopqrstuvwxyz ca:abcdefghijklmnopqrstuvwxyz",
    "cb:abcdgijklnoqrstuvwy cc:cdeghjlmnopqrs cd:cdefhijmnorsz ce:abgklnsty cf:adgm cg:acgk",
    "ch:abdefghijklmnopqrtuvwxyz ci:abcehmnprwy cj:aehikmnoprsvy ck:ablmnoqrstuvxyz",
    "cl:acdehijklmostuwy cm:acegiklnorst cn:abcghiklpqrstwx co:abcdefghjklmopqrstuxyz",
    "cp:abcefginopsuxy cq:du cr:abcdefghijklmnopqrstvwxyz cs:abcdefghjklmnopqrstuvwyz",
    "ct:acdeghlmnopstuyz cu:abchijklopstuvxy cv:gn cw:abdegt cx:h cy:abmo cz:ehknt",
    "da:acdefghijklmnopqrsuvwxyz db:abdefgijlmnopqtuvwy dc:cr dd:adegijnorsw de:cdefghiklmnqrsuvz",
    "dg:abcdeghiklnorstwxz dh:dgilmnorsuvwx di:abcdfghijklnopqrstuvwxyz dj:abcdefijklmnoruw",
    "dk:agklrsx dl:gmn dm:abcdefgklmnorsuvwxy dn:adegijknortuvwy do:abcefhiklnopqrstvwxy dp:p",
    "dr:aceghilnoqrstuwy ds:behiklnoq dt:abdhikmoprstuy du:abcdefghijklmnopqrstuvwxyz dv:a",
    "dw:aklrsuwyz dy:abdgimnoruy dz:adeglno ea:a eb:cgkoru ec:rsy ef:aei eg:almoxy eh:su ei:ptv",
    "ej:a ek:aegiklmopry el:eklmopux em:abegikmnpsuwxz en:abcdfghlmnoqrvwx eo:t ep:io",
    "er:aghikrstw es:eghiklmnostuxy et:bhnorstuxz eu:dqs ev:ehn ew:eo ex:t ey:ao ez:ae",
    "fa:abdfghijklmnoprstuxyz fb:l fc:s fe:r ff:im fg:r fi:aefjlnprtuw fk:kv fl:ahilnry fm:pu",
    "fn:bgi fo:dimnrsx fp:e fq:s fr:acdekmopqrsty fs:els fu:bcdefhilmnqrtuvy fv:r fw:ae",
    "ga:abcdefghijklmnopqrstuvwxyz gb:abcdefghijklmnopqrsuvwxyz gc:cdflnrt",
    "gd:bcdefghijklmnoqrstux ge:abcdfghijklmoqrsvwxyz gf:kx gg:abdegklnortuw gh:aceknorst",
    "gi:abcdeghlmnopqrstxyz gj:kmnru gk:adenopu gl:abcdeghijkloruvw gm:abdeghlmnqruvwxyz",
    "gn:abcdeghijklmnoqrtuwz go:abcdefghijklmnopqrstuvwxy gp:aen gq:anr gr:abcdeghijkmnqrstuvwxyz",
    "gs:eglmnopsw gt:aiu gu:abcdefghijklmnopqrstuvwxz gv:acefjlmnoprsy gw:abcdefgijmnrtuwx gx:x",
    "gy:abdefgilmnoryz gz:ain ha:abcdefghijklmnopqrstuvwxyz hb:abnosu hc:h hd:nsy he:abdghimr",
    "hg:mw hh:iry hi:abdfghijklmnortwx hj:i hk:aehks hl:abdtu hm:abdfjmnopqrstuvwxyz",
    "hn:adeghijmnos ho:abcdehijklmoprstvwy hp:os hr:acekmoprtuvwxz hs:bhlns ht:iosux",
    "hu:bcdefghiklmnprstuvwxyz hv:ceknv hw:aco hy:aewx ia:inr ib:abdeghilmnoruy ic:aehlr",
    "id:abcdeiorstu if:abefkmuy ig:beglmnosw ih:bipw ii:inr ij:cejnos ik:ehikloprstuvwxz",
    "il:abegiklmopsuvw im:ilnorsty in:abcdeghjlnopst io:ruw ip:iko iq:uw ir:aehiknouxy",
    "is:acdeghiklmnortu it:abcdeiklmorstvwxyz iu:m iv:bv iw:kmos ix:cl iy:aox iz:himrz",
    "ja:abcdefhjklmnoqrstuvwxyz jb:eijkmnortuw jc:st jd:agt je:beghiklnrtu jg:beko jh:is",
    "ji:abcdeglmtuvy jj:er jk:amosu jl:es jm:abcdilnrswx jn:adgijls jo:bdgrsw jp:anrx jq:r",
    "jr:abrtu js:l ju:abdhiklmnoprstuwy jv:dn jw:i jy:aey ka:abcdghijklmnopqrstuvwxyz",
    "kb:abcdeghijklmnopqrstuvwxyz kc:abcdefghijklmnopqstuvwyz kd:acdefghijklmnopqrtvwxyz",
    "ke:abcdefghiklmnorstuvwxyz kf:abcdefghiklmnopqrsuvwxyz kg:abcdefhijklmopqrstuvwxy",
    "kh:abcdefghijklmnopqrstuvwxyz ki:abcdefghjklmnopqrstuvwxyz kj:abcdeghijklmnopqrstuxyz",
    "kk:abcdefghijklmopqrstuvwxyz kl:abcdefghijklmnopqrstuvwxyz km:abcdefghijklmnopqrstuvwxyz",
    "kn:abcdefgijklmnopqrstuvwxyz ko:acdefghijklmnopqrstuvwyz kp:acdefghijklmnopqrstuvwxyz",
    "kq:abcdefghijklmnopqrstuvwxyz kr:abcdefhijklmnoprstuvwxyz ks:bcdefghijklmnopqrstuvwxz",
    "kt:abcdefghijklmnopqrstuvwxyz ku:abcdefghijklmnopqrstuvwxyz kv:abcdefghijklmnopqrstvwxyz",
    "kw:abcdefghijklmnopqrstuvwxyz kx:abcdefijklmnopqrtvwxyz ky:abcdefghijklmnoqrstuvwxyz",
    "kz:abcdefhijklmnoprstuvwxyz la:abcdeghijklmnopqrstuvwxz lb:befijklmnoqrstuvwxyz",
    "lc:cdefhlmpqs ld:abdghijklmnopq le:abcdefghijklmnopqrstuvwxyz lf:an lg:abghiklmnoqrstuz",
    "lh:ahimnstu li:abcdefghijklmnopqrstuvwxyz lj:aeilpwx lk:abcdehijlmnorstuy",
    "ll:abcdefgijklmnopqsux lm:abcdefghijklmnopqruvwxy ln:abdghijlmnsuwz",
    "lo:abceghijklmnopqrstuwxyz lp:aenox lq:r lr:acgiklmnotvz ls:abcdegilmnoprstvwy lt:cghinosuz",
    "lu:abcdefghijklmnopqrstuvwyz lv:aiklsu lw:aeghlmostw lx:m ly:an lz:hlnz",
    "ma:abcdefghijklmnopqrstuvwxyz mb:abcdfhijklmnopqrstuvwxyz mc:abcdefghijklmnopqrstuvwxyz",
    "md:abcdefghijklmnpqrstuvwxyz me:abcdeghjklmnopqrstuvwyz mf:abcdefghijklmnopqrstuvwxyz",
    "mg:abcdefghijklmnopqrstuvwxyz mh:bcdefgijklmnopqrstuwxyz mi:abcdefghijklmnopqrstuwxyz",
    "mj:bcdeghijklmnqrstuvwxyz mk:abcdefhijklmnoprstvwxyz ml:abcefghijklnoprstuvwxz",
    "mm:abcdefghimnopqrtuvwxyz mn:abcdefghijklmnopqrstuvwxyz mo:acdefghijklmnopqrstuvwxyz",
    "mp:abcdeghijklmnopqrstuvwxyz mq:abcefghijklmnopqrstuvwxyz mr:abcdefghijklmnopqrstuvwxyz",
    "ms:abdefghijklmnopqrstuvwxyz mt:abcdefghijklmnopqrstuvwxy mu:abcdeghijklmnopqrstuvxyz",
    "mv:adefghklnopqrstuvwxyz mw:abcdefghijklmnopqrstuvwz mx:abcdefghijklmnopqrstuvwxyz",
    "my:abcdefghjklmnprtuvwxyz mz:abcdeghijklmnopqrtuvwxyz na:abcdefghijklmnopqrstuvwxyz",
    "nb:abcdefhijklmnopqrstuvwxy nc:abcdefghijklmnopqrstuxz nd:abcdefghijklmnopqrstuvwxyz",
    "ne:abcdeghijkmnopqrtuwxyz nf:adlru ng:abcdefghijklmnpqrstuvwxyz nh:abcdefgikmnopqrtuvwxyz",
    "ni:abcdefghijlmnoqrstuvwxyz nj:abdhijlmnorstuxyz nk:abcdefghijkmnoqrstuvwxz",
    "nl:acdegijkmnoqruvwxyz nm:abcdefghijklmnopqrstuvwxz nn:abcdefghijklmnopqrstuvwxyz",
    "no:abcdefghijkmnopqrstuvwy np:bghilnosuxy nq:gklmnoqty nr:abefgiklmnpuxz",
    "ns:abcdefghiklmnopqrstuvwxyz nt:degijkmoprsuxyz nu:abcdefghijkmnopqrstuvwxyz nv:hmo",
    "nw:bcegimorwx nx:adegiklnoqrux ny:abcdefghijklmnopqrstuvwxy nz:abdikmrsuyz oa:acrv",
    "ob:iklmortu oc:aiou od:aktu of:su og:bcgou oh:tu oi:aen oj:bcgisvw ok:abcdegiklmorsuvxz",
    "ol:adekmortu om:abcgiklopqrtuvwx on:aegijknoprstux oo:dnr op:akmoty or:acegimnorstuvwxyz",
    "os:aciopstux ot:abdeiklmnoqrstuwxyz ou:beimn ov:d ow:il oy:bdmy oz:m",
    "pa:abcdefghiklmnopqrstuvwxyz pb:bcefghilmnoprstuvy pc:abcdefghijkmnprw pd:acnotu",
    "pe:abdegiklmopqrsvxyz pf:ael pg:adgiklnsuz ph:dghiklmnortuvw pi:abcdfghjlmnoprstuvwxyz pj:t",
    "pk:abghnoprsu pl:abcdefghiklnorstuvwz pm:abcdefhijklmnoqrstuwxyz pn:abcdeghijklmnopqrstvwyz",
    "po:cefghiklmnopqrstvwyz pp:aeiklmnopqrst pq:aemw pr:acdefghiklmopqrstuwxyz",
    "ps:acdeghilmnopqrstuw pt:ahinoprtuv pu:abcdefgijmopqrstuwxyz pw:abgmnorw px:m py:emnsuxy",
    "pz:ehn qa:abcdefghijklmnopqrstuvwxyz qb:abcdefghijklmnopqrstuvwxyz",
    "qc:abcdefghijklmnopqrstuvwxyz qd:abcdefghijklmnopqrstuvwxyz qe:abcdefghijklmnopqrstuvwxyz",
    "qf:abcdefghijklmnopqrstuvwxyz qg:abcdefghijklmnopqrstuvwxyz qh:abcdefghijklmnopqrstuvwxyz",
    "qi:abcdefghijklmnopqrstuvwxyz qj:abcdefghijklmnopqrstuvwxyz qk:abcdefghijklmnopqrstuvwxyz",
    "ql:abcdefghijklmnopqrstuvwxyz qm:abcdefghijklmnopqrstuvwxyz qn:abcdefghijklmnopqrstuvwxyz",
    "qo:abcdefghijklmnopqrstuvwxyz qp:abcdefghijklmnopqrstuvwxyz qq:abcdefghijklmnopqrstuvwxyz",
    "qr:abcdefghijklmnopqrstuvwxyz qs:abcdefghijklmnopqrstuvwxyz qt:abcdefghijklmnopqrstuvwxyz",
    "qu:abcdefgiklmnpqrsvwxyz qv:acehijlmnopswz qw:acehmst qx:achlnopqrtuw qy:ap",
    "ra:abcdfghijkmnoprvwxyz rb:bklp rc:f rd:b re:abegijlmnsty rg:anrsu rh:gp ri:abflmnrtu rj:gis",
    "rk:abhimtw rm:abcdefghiklmnopqrstuwxyz rn:bdglnrw ro:abcdefghlmnopruw rp:nt rr:imot",
    "rs:iklmnw rt:chmw ru:bcefgikmnopqstuyz rw:aklmor rx:dw ry:u sa:abcdefghijklmnopqrstuvwxyz",
    "sb:abcdeghijklmnopqrstuvwxyz sc:abcefghiklnoprstuvwx sd:abcefghjklnoqrsuvx",
    "se:abcdefghijklmnopqrstuvwyz sf:bemsw sg:abcdeghijlmnprstuwxyz sh:abcdeghijkmnopqrstuvwyz",
    "si:abdefghijklmnopqrstuvwxyz sj:abcdeglmnprtuw sk:abcdefghijkmnopqrstuvwxyz",
    "sl:acdfghijklmnoprsuvwxyz sm:abcdefghijklnopqrstuwxyz sn:abcdefgijklmnopqrsuvwxyz",
    "so:abcdegiklmnopqrstuvwxyz sp:abcdegiklmnopqrstvy sq:ahijkmoqstux",
    "sr:abcdefghiklmnopqrstuvwxyz ss:abcdefghjlmnopqrstuvwxyz st:abefghijklmnopqrstuvwy",
    "su:abcegijklmnoqrstvwxyz sv:abcekms sw:abcefghijklmopqrstuvwxy sx:benrsuw sy:abcdiklmnorswxy",
    "sz:abcdglnpsvwy ta:abcdefghijklmnopqrstuvwxyz tb:acdefghijklmnopqstuvwxyz",
    "tc:abcdefghikmnopqsuwxyz td:abcdeghijklmnoqrstuvxy te:abcdeghiklmnopqrstuvwxyz tf:inort",
    "tg:abcdefghijklnopqstuvwxyz th:acdefhiklmpqrstuvwxyz ti:bcdefghijklmnopqrstuvwxy",
    "tj:agijlnopsuw tk:abdefgklpqrstuvwxz tl:abcdfghijklmnpqrstuvwxy tm:abcdefghijklmnopqrtuvwyz",
    "tn:abcdefghiklmnopqrstvwxy to:bcdfghijklmnopqrsuvwxyz tp:acefgijklmnprtuvwxyz tq:blmnoptuw",
    "tr:abcefghijklmnopqrstuvwxyz ts:abcdefghijlmnopqrstuvwxyz tt:bcdefhijklmnopqrstuvwyz",
    "tu:abcdefghijklmnopqrstuvwxyz tv:adeiklmnostuwx tw:abdefghilmnopqrtuwxy tx:aegijmnoqstuxy",
    "ty:aehijlnprstuvxyz tz:ahjlmnox ua:mr ub:ailruy ud:aegijlmu ue:s uf:i ug:abehnoy uh:an",
    "ui:gsv uj:i uk:aghiklpqrsuvwy ul:abcefikmnuwy um:abdgimnoprsu un:adegikmnpruxz uo:kn up:iv",
    "ur:abcdefghijkmnoprtuvwxyz us:ahikpsu ut:aehpru uu:mr uv:ehl uw:a uy:a uz:bns",
    "va:aefghijlmnoprsuvy vb:bk ve:cmnopr vg:rt vi:cdefglntv vj:k vk:ajklmnoptuz vl:ps",
    "vm:abcdefghijklmpqrsuwxyz vn:kmp vo:lrt vr:aost vs:ilv vt:o vu:mnt vw:a",
    "wa:abcdefghijklmnpqrstuvwxyz wb:abefhijklmpqrstvw wc:ai wd:dgjktuy we:cdghilmnoprstuw wf:g",
    "wg:abgiouwy wh:agku wi:bcefghijklmnrtuvwy wj:ai wk:adrwy wl:aeghimnorsuvwx wm:abcdehimnostwx",
    "wn:bcdegikmnopuwy wo:abcdefgiklmnorsw wp:c wr:bghiklmoprsuvwxz ws:agikrsuv wt:bfhikmw",
    "wu:abdlmnrtuvxy ww:aborw wx:w wy:bimnry xa:abgijklmnorstuvwy xb:abdegijmnprwy xc:hor",
    "xd:akoqy xe:dgmrstu xg:bdgimnuw xh:emov xi:ainrsy xj:bt xk:abcdefghijlnpqrstuvwxyz xl:acdy",
    "xm:abcdfghjlmnopqrstuvwxyz xn:abdijkmnqrtuyz xo:cdgikmnoprw xp:abdefghijklmnoqrtvwxz",
    "xr:abdegimnqruw xs:abdehijlmnpqrsuy xt:abcdehijlmnpqstuvwy xu:bdjlmnotu xv:einos",
    "xw:adejklortw xx:bkmrt xy:abjklty xz:hp ya:abcdefghijklmnopqrstuvwxyz yb:abdehijlmnoxy",
    "yc:lnr yd:adegks ye:aceijlnrstuvy yg:ailmprsuw yh:ds yi:adghijlmrsvy yk:aghikmory",
    "yl:abegilruy ym:abegklmnopt yn:abdgklqsu yo:bgiklmnrsty yp:k yr:abeklmoswy ys:dlmnprsy yt:wy",
    "yu:abcdefgijlmnpqrtuwxz yv:at yw:agnqruw yx:aglmuy yy:ru za:abcdefghijkmopqrstuvwxyz",
    "zb:aceltuw zc:ah zd:j ze:aghmn zg:abhmnr zh:adinowx zi:abklmnrwz zk:abdoptuz zl:aejmnqsuw",
    "zm:abcdefghijklmnopqrstuvwxyz zn:adegks zo:chmoqrs zp:abcdefghijklmnopqrstuvwxyz zq:e",
    "zr:gnops zs:almru zt:eglmnpqstuxy zu:hlmny zw:a zx:x zy:bgjnp zz:aj"]

/-- Codes of three letters for languages that have a code of two letters. -/
def longForms : Table Bytes := pairs
  ["aar:aa abk:ab afr:af aka:ak amh:am ara:ar arg:an asm:as ava:av ave:ae aym:ay aze:az bak:ba",
    "bam:bm bel:be ben:bn bih:bh bis:bi bod:bo bos:bs bre:br bul:bg cat:ca ces:cs cha:ch che:ce",
    "chu:cu chv:cv cor:kw cos:co cre:cr cym:cy dan:da deu:de div:dv dzo:dz ell:el eng:en epo:eo",
    "est:et eus:eu ewe:ee fao:fo fas:fa fij:fj fin:fi fra:fr fry:fy ful:ff gla:gd gle:ga glg:gl",
    "glv:gv grn:gn guj:gu hat:ht hau:ha hbs:sh heb:he her:hz hin:hi hmo:ho hrv:hr hun:hu hye:hy",
    "ibo:ig ido:io iii:ii iku:iu ile:ie ina:ia ind:id ipk:ik isl:is ita:it jav:jv jaw:jw jpn:ja",
    "kal:kl kan:kn kas:ks kat:ka kau:kr kaz:kk khm:km kik:ki kin:rw kir:ky kom:kv kon:kg kor:ko",
    "kua:kj kur:ku lao:lo lat:la lav:lv lim:li lin:ln lit:lt ltz:lb lub:lu lug:lg mah:mh mal:ml",
    "mar:mr mkd:mk mlg:mg mlt:mt mol:mo mon:mn mri:mi msa:ms mya:my nau:na nav:nv nbl:nr nde:nd",
    "ndo:ng nep:ne nld:nl nno:nn nob:nb nor:no nya:ny oci:oc oji:oj ori:or orm:om oss:os pan:pa",
    "pli:pi pol:pl por:pt pus:ps que:qu roh:rm ron:ro run:rn rus:ru sag:sg san:sa sin:si slk:sk",
    "slv:sl sme:se smo:sm sna:sn snd:sd som:so sot:st spa:es sqi:sq srd:sc srp:sr ssw:ss sun:su",
    "swa:sw swe:sv tah:ty tam:ta tat:tt tel:te tgk:tg tgl:tl tha:th tir:ti ton:to tsn:tn tso:ts",
    "tuk:tk tur:tr twi:tw uig:ug ukr:uk urd:ur uzb:uz ven:ve vie:vi vol:vo wln:wa wol:wo xho:xh",
    "yid:yi yor:yo zha:za zho:zh zul:zu"]

/-- Codes made from the English names of languages, with the codes of two letters. -/
def bookForms : Table Bytes := pairs
  ["alb:sq arm:hy baq:eu bur:my chi:zh cze:cs dut:nl fre:fr geo:ka ger:de gre:el ice:is mac:mk",
    "mao:mi may:ms per:fa rum:ro scc:sr scr:hr slo:sk tib:bo wel:cy"]

def scripts : List Bytes := words
  ["adlm afak aghb ahom arab aran armi armn avst bali bamu bass batk beng bhks blis bopo brah",
    "brai bugi buhd cakm cans cari cham cher chrs cirt copt cpmn cprt cyrl cyrs deva diak dogr",
    "dsrt dupl egyd egyh egyp elba elym ethi gara geok geor glag gong gonm goth gran grek gujr",
    "gukh guru hanb hang hani hano hans hant hatr hebr hira hluw hmng hmnp hrkt hung inds ital",
    "jamo java jpan jurc kali kana kawi khar khmr khoj kits knda kore kpel krai kthi lana laoo",
    "latf latg latn leke lepc limb lina linb lisu loma lyci lydi mahj maka mand mani marc maya",
    "medf mend merc mero mlym modi mong moon mroo mtei mult mymr nagm nand narb nbat newa nkdb",
    "nkgb nkoo nshu ogam olck onao orkh orya osge osma ougr palm pauc pcun pelm perm phag phli",
    "phlp phlv phnx piqd plrd prti psin qaaa qaab qaac qaad qaae qaaf qaag qaah qaai qaaj qaak",
    "qaal qaam qaan qaao qaap qaaq qaar qaas qaat qaau qaav qaaw qaax qaay qaaz qaba qabb qabc",
    "qabd qabe qabf qabg qabh qabi qabj qabk qabl qabm qabn qabo qabp qabq qabr qabs qabt qabu",
    "qabv qabw qabx ranj rjng rohg roro runr samr sara sarb saur sgnw shaw shrd shui sidd sind",
    "sinh sogd sogo sora soyo sund sunu sylo syrc syre syrj syrn tagb takr tale talu taml tang",
    "tavt telu teng tfng tglg thaa thai tibt tirh tnsa todr toto tutg ugar vaii visp vith wara",
    "wcho wole xpeo xsux yezi yiii zanb zinh zmth zsye zsym zxxx zyyy zzzz"]

/-- The regions of two letters, with their codes of three letters if they have any. -/
def regions : Table Bytes := pairs
  ["aa:aaa ac:asc ad:and ae:are af:afg ag:atg ai:aia al:alb am:arm an:ant ao:ago aq:ata ar:arg",
    "as:asm at:aut au:aus aw:abw ax:ala az:aze ba:bih bb:brb bd:bgd be:bel bf:bfa bg:bgr bh:bhr",
    "bi:bdi bj:ben bl:blm bm:bmu bn:brn bo:bol bq:bes br:bra bs:bhs bt:btn bu:bur bv:bvt bw:bwa",
    "by:blr bz:blz ca:can cc:cck cd:cod cf:caf cg:cog ch:che ci:civ ck:cok cl:chl cm:cmr cn:chn",
    "co:col cp: cq: cr:cri cs:scg ct:cte cu:cub cv:cpv cw:cuw cx:cxr cy:cyp cz:cze dd:ddr de:deu",
    "dg:dga dj:dji dk:dnk dm:dma do:dom dy:dhy dz:dza ea: ec:ecu ee:est eg:egy eh:esh er:eri",
    "es:esp et:eth eu:quu ez: fi:fin fj:fji fk:flk fm:fsm fo:fro fq: fr:fra fx:fxx ga:gab gb:gbr",
    "gd:grd ge:geo gf:guf gg:ggy gh:gha gi:gib gl:grl gm:gmb gn:gin gp:glp gq:gnq gr:grc gs:sgs",
    "gt:gtm gu:gum gw:gnb gy:guy hk:hkg hm:hmd hn:hnd hr:hrv ht:hti hu:hun hv:hvo ic: id:idn",
    "ie:irl il:isr im:imn in:ind io:iot iq:irq ir:irn is:isl it:ita je:jey jm:jam jo:jor jp:jpn",
    "jt:jtn ke:ken kg:kgz kh:khm ki:kir km:com kn:kna kp:prk kr:kor kw:kwt ky:cym kz:kaz la:lao",
    "lb:lbn lc:lca li:lie lk:lka lr:lbr ls:lso lt:ltu lu:lux lv:lva ly:lby ma:mar mc:mco md:mda",
    "me:mne mf:maf mg:mdg mh:mhl mi:mid mk:mkd ml:mli mm:mmr mn:mng mo:mac mp:mnp mq:mtq mr:mrt",
    "ms:msr mt:mlt mu:mus mv:mdv mw:mwi mx:mex my:mys mz:moz na:nam nc:ncl ne:ner nf:nfk ng:nga",
    "nh:nhb ni:nic nl:nld no:nor np:npl nq:atn nr:nru nt:ntz nu:niu nz:nzl om:omn pa:pan pc:pci",
    "pe:per pf:pyf pg:png ph:phl pk:pak pl:pol pm:spm pn:pcn pr:pri ps:pse pt:prt pu:pus pw:plw",
    "py:pry pz:pcz qa:qat qm:qmm qn:qnn qo:qoo qp:qpp qq:qqq qr:qrr qs:qss qt:qtt qu: qv:qvv",
    "qw:qww qx:qxx qy:qyy qz:qzz re:reu rh:rho ro:rou rs:srb ru:rus rw:rwa sa:sau sb:slb sc:syc",
    "sd:sdn se:swe sg:sgp sh:shn si:svn sj:sjm sk:svk sl:sle sm:smr sn:sen so:som sr:sur ss:ssd",
    "st:stp su:sun sv:slv sx:sxm sy:syr sz:swz ta:taa tc:tca td:tcd tf:atf tg:tgo th:tha tj:tjk",
    "tk:tkl tl:tls tm:tkm tn:tun to:ton tp:tmp tr:tur tt:tto tv:tuv tw:twn tz:tza ua:ukr ug:uga",
    "uk: um:umi un: us:usa uy:ury uz:uzb va:vat vc:vct vd:vdr ve:ven vg:vgb vi:vir vn:vnm vu:vut",
    "wf:wlf wk:wak ws:wsm xa:xaa xb:xbb xc:xcc xd:xdd xe:xee xf:xff xg:xgg xh:xhh xi:xii xj:xjj",
    "xk:xkk xl:xll xm:xmm xn:xnn xo:xoo xp:xpp xq:xqq xr:xrr xs:xss xt:xtt xu:xuu xv:xvv xw:xww",
    "xx:xxx xy:xyy xz:xzz yd:ymd ye:yem yt:myt yu:yug za:zaf zm:zmb zr:zar zw:zwe zz:zzz"]

/-- The regions that a number of three digits stands for. -/
def numberedRegions : Table Bytes := pairs
  ["004:af 008:al 010:aq 012:dz 016:as 020:ad 024:ao 028:ag 031:az 032:ar 036:au 040:at 044:bs",
    "048:bh 050:bd 051:am 052:bb 056:be 060:bm 062:034 064:bt 068:bo 070:ba 072:bw 074:bv 076:br",
    "084:bz 086:io 090:sb 092:vg 096:bn 100:bg 104:mm 108:bi 112:by 116:kh 120:cm 124:ca 132:cv",
    "136:ky 140:cf 144:lk 148:td 152:cl 156:cn 158:tw 162:cx 166:cc 170:co 172:ru 174:km 175:yt",
    "178:cg 180:cd 184:ck 188:cr 191:hr 192:cu 196:cy 200:cz 203:cz 204:bj 208:dk 212:dm 214:do",
    "218:ec 222:sv 226:gq 230:et 231:et 232:er 233:ee 234:fo 238:fk 239:gs 242:fj 246:fi 248:ax",
    "249:fr 250:fr 254:gf 258:pf 260:tf 262:dj 266:ga 268:ge 270:gm 275:ps 276:de 278:de 280:de",
    "288:gh 292:gi 296:ki 300:gr 304:gl 308:gd 312:gp 316:gu 320:gt 324:gn 328:gy 332:ht 334:hm",
    "336:va 340:hn 344:hk 348:hu 352:is 356:in 360:id 364:ir 368:iq 372:ie 376:il 380:it 384:ci",
    "388:jm 392:jp 398:kz 400:jo 404:ke 408:kp 410:kr 414:kw 417:kg 418:la 422:lb 426:ls 428:lv",
    "430:lr 434:ly 438:li 440:lt 442:lu 446:mo 450:mg 454:mw 458:my 462:mv 466:ml 470:mt 474:mq",
    "478:mr 480:mu 484:mx 492:mc 496:mn 498:md 499:me 500:ms 504:ma 508:mz 512:om 516:na 520:nr",
    "524:np 528:nl 530:cw 531:cw 532:cw 533:aw 534:sx 535:bq 536:sa 540:nc 548:vu 554:nz 558:ni",
    "562:ne 566:ng 570:nu 574:nf 578:no 580:mp 581:um 582:fm 583:fm 584:mh 585:pw 586:pk 591:pa",
    "598:pg 600:py 604:pe 608:ph 612:pn 616:pl 620:pt 624:gw 626:tl 630:pr 634:qa 638:re 642:ro",
    "643:ru 646:rw 652:bl 654:sh 659:kn 660:ai 662:lc 663:mf 666:pm 670:vc 674:sm 678:st 682:sa",
    "686:sn 688:rs 690:sc 694:sl 702:sg 703:sk 704:vn 705:si 706:so 710:za 716:zw 720:ye 724:es",
    "728:ss 729:sd 732:eh 736:sd 740:sr 744:sj 748:sz 752:se 756:ch 760:sy 762:tj 764:th 768:tg",
    "772:tk 776:to 780:tt 784:ae 788:tn 792:tr 795:tm 796:tc 798:tv 800:ug 804:ua 807:mk 810:ru",
    "818:eg 826:gb 830:je 831:gg 832:je 833:im 834:tz 840:us 850:vi 854:bf 858:uy 860:uz 862:ve",
    "876:wf 882:ws 886:ye 887:ye 890:rs 891:rs 894:zm 958:aa 959:qm 960:qn 962:qp 963:qq 964:qr",
    "965:qs 966:qt 967:eu 968:qv 969:qw 970:qx 971:qy 972:qz 973:xa 974:xb 975:xc 976:xd 977:xe",
    "978:xf 979:xg 980:xh 981:xi 982:xj 983:xk 984:xl 985:xm 986:xn 987:xo 988:xp 989:xq 990:xr",
    "991:xs 992:xt 993:xu 994:xv 995:xw 996:xx 997:xy 998:xz 999:zz"]

/-- The areas of several regions, which have only a number. -/
def areas : List Bytes := words
  ["001 002 003 005 009 011 013 014 015 017 018 019 021 029 030 034 035 039 053 054 057 061 142",
    "143 145 150 151 154 155 202 419"]

/-- The regions that are no more, each with the one that took its place. -/
def formerRegions : Table Bytes := pairs
  ["an:cw bu:mm cs:rs ct:ki dd:de dy:bj fq:aq fx:fr hv:bf jt:um mi:um nh:vu nq:aq nt:sa pc:fm",
    "pu:um pz:pa qu:eu rh:zw su:ru tp:tl uk:gb vd:vn wk:um yd:ye yu:rs zr:cd"]

def variants : List Bytes := words
  ["1606nict 1694acad 1901 1959acad 1994 1996 abl1943 akuapem alalc97 aluku anpezo ao1990 aranes",
    "arevela arevmda arkaika asante auvern baku1926 balanka barla basiceng bauddha bciav bcizbl",
    "biscayan biske blasl bohoric boont bornholm cisaup colb1945 cornu creiss dajnko ekavsk",
    "emodeng fascia fodom fonipa fonkirsh fonnapa fonupa fonxsamp gallo gascon gherd grclass",
    "grital grmistr hepburn heploc hognorsk hsistemo huett ijekavsk itihasa ivanchov jauer",
    "jyutping kkcor kleinsch kociewie kscor laukika lemosin lengadoc lipaw ltg1929 ltg2007",
    "luna1918 mdcegyp mdctrans metelko monoton ndyuka nedis newfound nicard njiva nulik osojs",
    "oxendict pahawh2 pahawh3 pahawh4 pamaka peano pehoeji petr1708 pinyin polyton provenc puter",
    "rigik rozaj rumgr scotland scouse simple solba sotav spanglis surmiran sursilv sutsilv",
    "synnejyl tailo tarask tongyong tunumiit uccor ucrcor ulster unifon vaidika valbadia valencia",
    "vallader vecdruka viennese vivaraup wadegile xsistemo"]

/-- Whether three letters are a language. -/
def isLongLanguage : Bytes → Bool
  | [a, b, c] => ((longLanguages.get? [a, b]).getD []).contains c
  | _ => false

def undetermined : Bytes := text "und"

/-- The language that a subtag of two or three letters names, in its short form; nothing at all for
the undetermined one. -/
def language? (s : Bytes) : Option Bytes :=
  if s = undetermined then some []
  else if shortLanguages.contains s then some s
  else (longForms.get? s).or (if isLongLanguage s then some s else none)

/-- The region that a subtag of two letters, three letters or three digits names. -/
def region? (s : Bytes) : Option Bytes :=
  if regions.has s || areas.contains s then some s
  else if s.length = 3 then
    (numberedRegions.get? s).or ((regions.find? (·.2 = s)).map (·.1))
  else none

/-- A region, or the one that took its place. -/
def presentRegion (r : Bytes) : Bytes := (formerRegions.get? r).getD r

end JumpScript.Subtag
